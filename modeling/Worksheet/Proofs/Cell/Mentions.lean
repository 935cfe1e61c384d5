import Worksheet.Proofs.Formula.Names
import Worksheet.Proofs.Links.Consistency
import Worksheet.Sheet

/-!
# Which cells mention which

`CellTable.mentions` lists what the formula of a cell mentions.  It is read off the
contents alone, and it is what the links of a sheet have to agree with.

Setting a cell changes what that cell holds and mentions, and nothing else.  To
restore what the cell held before gives back the same table.
-/

namespace Worksheet

/-! ## Names in contents -/

namespace CellContent

theorem nodup_names (content : CellContent) : content.names.Nodup := by
  cases content with
  | number _ => exact List.nodup_nil
  | text _ => exact List.nodup_nil
  | formula f => exact nodup_eraseDups _

/-- Formulas mention names, and nothing else does. -/
theorem mem_names_iff {content : CellContent} {name : String} :
    name ∈ content.names ↔ ∃ f, content = .formula f ∧ name ∈ f.names := by
  constructor
  · intro hname
    cases content with
    | number _ => cases hname
    | text _ => cases hname
    | formula f => exact ⟨f, rfl, hname⟩
  · rintro ⟨f, rfl, hname⟩
    exact hname

theorem names_of_isEmpty {content : CellContent} (hempty : content.isEmpty = true) :
    content.names = [] := by
  cases content with
  | number _ => rfl
  | text _ => rfl
  | formula _ => cases hempty

/-- The value of a content depends on the names that it mentions and on no other. -/
theorem value_congr (content : CellContent) {first second : String → Option Float}
    (hagree : ∀ name ∈ content.names, first name = second name) :
    content.value first = content.value second := by
  cases content with
  | number _ => rfl
  | text _ => rfl
  | formula f => simp only [value, f.evaluate_congr hagree]

/-- Literals mention stored names only. -/
theorem stores_of_enter {rules : NameRules} {literal : String} {content : CellContent}
    (henter : enter rules literal = .ok content) {name : String} (hname : name ∈ content.names) :
    rules.Stores name := by
  cases content with
  | number _ => cases hname
  | text _ => cases hname
  | formula f =>
      unfold enter read at henter
      split at henter
      · cases henter
      · split at henter
        · rename_i source _
          cases hread : Formula.readChars rules source with
          | error fault =>
              rw [hread] at henter
              cases henter
          | ok g =>
              rw [hread] at henter
              cases henter
              exact Formula.stores_of_readChars hread hname
        · cases henter

/-- Whatever a ready-made content mentions, what a sheet makes of it mentions stored
names only. -/
theorem stores_of_adopt {rules : NameRules} {given content : CellContent}
    (hadopt : given.adopt rules = .ok content) {name : String} (hname : name ∈ content.names) :
    rules.Stores name := by
  cases given with
  | formula f =>
      unfold adopt at hadopt
      simp only at hadopt
      split at hadopt
      · rename_i g hread
        cases hadopt
        exact Formula.stores_of_readChars hread hname
      · cases hadopt
  | text characters =>
      simp only [adopt] at hadopt
      split at hadopt
      · cases hadopt
      · cases hadopt
        cases hname
  | number value =>
      simp only [adopt] at hadopt
      split at hadopt
      · cases hadopt
        cases hname
      · cases hadopt

end CellContent

/-! ## The table of cells -/

namespace CellTable

variable {table : CellTable}

theorem ext {first second : CellTable}
    (hcontent : ∀ name, first.content? name = second.content? name) : first = second := by
  cases first
  cases second
  exact congrArg CellTable.mk (Std.ExtTreeMap.ext_getElem? fun {name} => hcontent name)

theorem content?_empty (name : String) : (∅ : CellTable).content? name = none :=
  Std.ExtTreeMap.getElem?_empty

theorem mem_names_iff {name : String} :
    name ∈ table.names ↔ ∃ content, table.content? name = some content := by
  rw [names, Std.ExtTreeMap.mem_keys, Std.ExtTreeMap.mem_iff_isSome_getElem?,
    Option.isSome_iff_exists]
  rfl

theorem mem_toList_iff {name : String} {content : CellContent} :
    (name, content) ∈ table.toList ↔ table.content? name = some content :=
  Std.ExtTreeMap.mem_toList_iff_getElem?_eq_some

theorem content?_restore (table : CellTable) (name other : String)
    (content : Option CellContent) :
    (table.restore name content).content? other =
      if other = name then content else table.content? other := by
  unfold restore content?
  by_cases hother : other = name
  · subst hother
    cases content <;> simp
  · have hne : name ≠ other := fun heq => hother heq.symm
    cases content <;>
      simp [hother, hne, Std.ExtTreeMap.getElem?_insert, Std.ExtTreeMap.getElem?_erase]

theorem content?_set (table : CellTable) (name other : String) (content : CellContent) :
    (table.set name content).2.content? other =
      if other = name then (if content.isEmpty then none else some content)
      else table.content? other :=
  table.content?_restore name other _

/-- A content that is found after setting a cell is the one that was set, or was there
before. -/
theorem content?_set_cases {name other : String} {content found : CellContent}
    (hfound : (table.set name content).2.content? other = some found) :
    (other = name ∧ found = content ∧ found.isEmpty = false) ∨
      table.content? other = some found := by
  rw [content?_set] at hfound
  split at hfound
  · rename_i hother
    split at hfound
    · cases hfound
    · rename_i hempty
      cases hfound
      exact Or.inl ⟨hother, rfl, by simpa using hempty⟩
  · exact Or.inr hfound

/-- To restore what a cell held before undoes setting it. -/
theorem restore_set (table : CellTable) (name : String) (content : CellContent) :
    (table.set name content).2.restore name (table.set name content).1 = table := by
  apply ext
  intro other
  rw [content?_restore, content?_set]
  by_cases hother : other = name
  · rw [if_pos hother, hother]
    rfl
  · rw [if_neg hother, if_neg hother]

/-- The names that the formula of a cell mentions, each once, in the order in which
they first occur.  A cell without a formula mentions nothing. -/
def mentions (table : CellTable) (name : String) : List String :=
  match table.content? name with
  | some content => content.names
  | none => []

/-- Whether the formula of `cell` mentions `mentioned`. -/
def MentionedBy (table : CellTable) (mentioned cell : String) : Prop :=
  mentioned ∈ table.mentions cell

instance (table : CellTable) (mentioned cell : String) :
    Decidable (table.MentionedBy mentioned cell) :=
  inferInstanceAs (Decidable (mentioned ∈ table.mentions cell))

theorem mentions_of_content? {name : String} {content : CellContent}
    (hcontent : table.content? name = some content) : table.mentions name = content.names := by
  simp only [mentions, hcontent]

theorem mentions_of_content?_eq_none {name : String} (hnone : table.content? name = none) :
    table.mentions name = [] := by
  simp only [mentions, hnone]

theorem mem_mentions_iff {mentioned name : String} :
    mentioned ∈ table.mentions name ↔
      ∃ content, table.content? name = some content ∧ mentioned ∈ content.names := by
  constructor
  · intro hmention
    cases hcontent : table.content? name with
    | none =>
        rw [mentions_of_content?_eq_none hcontent] at hmention
        cases hmention
    | some content =>
        rw [mentions_of_content? hcontent] at hmention
        exact ⟨content, rfl, hmention⟩
  · rintro ⟨content, hcontent, hmention⟩
    rwa [mentions_of_content? hcontent]

theorem mentions_set (table : CellTable) (name other : String) (content : CellContent) :
    (table.set name content).2.mentions other =
      if other = name then content.names else table.mentions other := by
  unfold mentions
  rw [content?_set]
  by_cases hother : other = name
  · rw [if_pos hother, if_pos hother]
    cases hempty : content.isEmpty with
    | true => simp [CellContent.names_of_isEmpty hempty]
    | false => simp
  · rw [if_neg hother, if_neg hother]

end CellTable

end Worksheet
