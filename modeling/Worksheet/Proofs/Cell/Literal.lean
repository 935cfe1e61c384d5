import Worksheet.Cell.Adoption
import Worksheet.Name.Stock
import Worksheet.Proofs.Formula.Canonical

/-!
# Literals that read back

What has been typed into a cell need not be its literal: a number loses the zeros that
end it, and a formula its blanks.  The literal nevertheless stands for the same content
(`CellContent.read_literal`), because all that a content can be typed in as reads back
(`CellContent.readsBack_of_read`).  The literal is therefore canonical: reading it, with rules
or without, and writing it again gives the same literal (`CellContent.read_literal_of_read`).

A content that comes ready-made reads back as well, with one exception.  A text that spells
a number is adopted as it is, and its literal stands for the number
(`CellContent.read_literal_eq_ok_iff`).
-/

namespace Worksheet

namespace CellContent

variable {rules : NameRules} {content : CellContent}

/-- Whether the literal of a content can stand for nothing else.  A text may be read
neither as a number nor as a formula, and the names of a formula have to be in their
stored form. -/
def ReadsBack (rules : NameRules) : CellContent → Prop
  | number value => Number.isFinite value = true
  | text characters => readNumber? characters = none ∧ characters.toList.head? ≠ some '='
  | formula f =>
      (∀ token ∈ f.tokens, token.IsPlain) ∧ ∀ name ∈ f.names, rules.resolve name = some name

theorem read_literal (hcontent : content.ReadsBack rules) :
    read rules content.literal = .ok content := by
  cases content with
  | number value =>
      have hfinite : Number.isFinite value = true := hcontent
      have hnumber : readNumber? (Number.text value) = some value := by
        rw [readNumber?, Number.read?_text hfinite, Option.filter_some, if_pos hfinite]
      rw [literal, read, hnumber]
  | text characters =>
      obtain ⟨hnumber, hequals⟩ := hcontent
      rw [literal, read, hnumber]
      simp only
      split
      · rename_i source hsource
        exact absurd (by rw [hsource]; rfl) hequals
      · rfl
  | formula f =>
      have hread := Formula.readChars_chars hcontent.1 hcontent.2
      have hnumber : readNumber? (String.ofList ('=' :: f.chars)) = none := by
        rw [readNumber?, Number.read?, String.toList_ofList, Number.readChars?_equals]
        rfl
      rw [literal, read, hnumber]
      simp only [String.toList_ofList, hread]
      rfl

/-- A content that has been typed in reads back under other rules, if the names that
formulas get under the first resolve to themselves under the others. -/
theorem readsBack_of_read_of_names {target : NameRules} {literal : String}
    (hnames : ∀ source f, Formula.readChars rules source = .ok f →
      ∀ name ∈ f.names, target.resolve name = some name)
    (hread : read rules literal = .ok content) : content.ReadsBack target := by
  unfold read at hread
  split at hread
  · rename_i value hnumber
    cases hread
    exact (Option.filter_eq_some_iff.mp hnumber).2
  · rename_i hnumber
    split at hread
    · rename_i source _
      obtain ⟨f, hformula, rfl⟩ := map_eq_ok_iff.mp hread
      exact ⟨fun _ => Formula.isPlain_of_readChars hformula, hnames source f hformula⟩
    · rename_i hformula
      cases hread
      refine ⟨hnumber, fun hequals => ?_⟩
      obtain ⟨source, hsource⟩ := List.head?_eq_some_iff.mp hequals
      exact hformula source hsource

/-- A content that has been typed in reads back, where stored names are their own stored
forms. -/
theorem readsBack_of_read (hrules : rules.IsIdempotent) {literal : String}
    (hread : read rules literal = .ok content) : content.ReadsBack rules :=
  readsBack_of_read_of_names (fun _ _ hformula _ => Formula.resolve_of_readChars hrules hformula)
    hread

theorem enter_eq_ok_iff {literal : String} :
    enter rules literal = .ok content ↔ read rules literal = .ok content := by
  unfold enter
  cases read rules literal <;> simp [Except.mapError]

/-- The literal of a content that reads back can be typed in. -/
theorem enter_literal (hcontent : content.ReadsBack rules) :
    enter rules content.literal = .ok content :=
  enter_eq_ok_iff.mpr (read_literal hcontent)

theorem readsBack_of_enter (hrules : rules.IsIdempotent) {literal : String}
    (henter : enter rules literal = .ok content) : content.ReadsBack rules :=
  readsBack_of_read hrules (enter_eq_ok_iff.mp henter)

/-! ## Reading back without rules -/

/-- The names of a formula that has been read need no rules any more. -/
theorem resolve_without_rules_of_readChars {source : List Char} {f : Formula}
    (hread : Formula.readChars rules source = .ok f) {name : String} (hname : name ∈ f.names) :
    NameRules.resolve {} name = some name :=
  NameRules.resolve_without_rules (Formula.stores_of_readChars hread hname).1

theorem readsBack_without_rules_of_read {literal : String}
    (hread : read rules literal = .ok content) : content.ReadsBack {} :=
  readsBack_of_read_of_names (fun _ _ hformula _ => resolve_without_rules_of_readChars hformula)
    hread

theorem readsBack_without_rules_of_enter {literal : String}
    (henter : enter rules literal = .ok content) : content.ReadsBack {} :=
  readsBack_without_rules_of_read (enter_eq_ok_iff.mp henter)

/-- The literal of what has been read is read as the same content without rules, and under the
same rules if stored names are their own stored forms.  Written again, it is the same literal. -/
theorem read_literal_of_read {literal : String} (hread : read rules literal = .ok content) :
    read {} content.literal = .ok content ∧
      (rules.IsIdempotent → read rules content.literal = .ok content) ∧
      (read {} content.literal).map CellContent.literal = .ok content.literal := by
  have hback := read_literal (readsBack_without_rules_of_read hread)
  refine ⟨hback, fun hrules => read_literal (readsBack_of_read hrules hread), ?_⟩
  rw [hback]
  rfl

/-- A formula with blanks and a long name, a negative zero, a number with a sign and an exponent,
and what is too large for a number. -/
theorem read_literal_of_read_spellings :
    let rules := NameRules.stock (.truncate 2) .all
    ∀ pair ∈ [("= Total * 2.50", "=To*2.5"), ("-0.0", "-0"), ("+2.50e1", "25"), ("1e400", "1e400")],
      ∃ content, read rules pair.1 = .ok content ∧ content.literal = pair.2 ∧
        read {} pair.2 = .ok content ∧ read rules pair.2 = .ok content := by
  intro rules pair hpair
  have hrules : rules.IsIdempotent := fun name => by
    simp [rules, NameRules.stock, Normalizer.apply, List.take_take]
  have hliteral : (read rules pair.1).map CellContent.literal = .ok pair.2 := by
    revert pair
    decide +kernel
  obtain ⟨content, hread, hcanonical⟩ := map_eq_ok_iff.mp hliteral
  obtain ⟨hbare, hsame, -⟩ := read_literal_of_read hread
  rw [hcanonical] at hbare hsame
  exact ⟨content, hread, hcanonical, hbare, hsame hrules⟩

/-- Whether a content is a text that spells a number. -/
def SpellsNumber : CellContent → Prop
  | text characters => ∃ value, readNumber? characters = some value
  | number _ => False
  | formula _ => False

/-- A content that is adopted reads back without rules, or spells a number. -/
theorem readsBack_or_spellsNumber_of_adopt {given : CellContent}
    (hadopt : given.adopt rules = .ok content) : content.ReadsBack {} ∨ content.SpellsNumber := by
  cases given with
  | number value =>
      simp only [adopt] at hadopt
      split at hadopt
      · rename_i hfinite
        cases hadopt
        exact Or.inl hfinite
      · cases hadopt
  | text characters =>
      simp only [adopt] at hadopt
      split at hadopt
      · cases hadopt
      · rename_i hequals
        cases hadopt
        cases hnumber : readNumber? characters with
        | none => exact Or.inl ⟨hnumber, hequals⟩
        | some value => exact Or.inr ⟨value, hnumber⟩
  | formula f =>
      unfold adopt at hadopt
      simp only at hadopt
      split at hadopt
      · rename_i g hread
        cases hadopt
        exact Or.inl ⟨fun _ => Formula.isPlain_of_readChars hread,
          fun _ => resolve_without_rules_of_readChars hread⟩
      · cases hadopt

theorem SpellsNumber.exists_read_literal (hcontent : content.SpellsNumber) (rules : NameRules) :
    ∃ value, read rules content.literal = .ok (.number value) := by
  cases content with
  | number value => cases hcontent
  | text characters =>
      obtain ⟨value, hnumber⟩ := hcontent
      exact ⟨value, by rw [literal, read, hnumber]⟩
  | formula f => cases hcontent

/-- What is held on a sheet is read back, unless it is a text that spells a number. -/
theorem read_literal_eq_ok_iff (hcontent : content.ReadsBack rules ∨ content.SpellsNumber) :
    read rules content.literal = .ok content ↔ ¬ content.SpellsNumber := by
  constructor
  · intro hread hspells
    obtain ⟨value, hnumber⟩ := hspells.exists_read_literal rules
    rw [hread] at hnumber
    cases hnumber
    cases hspells
  · exact fun hnot => read_literal (hcontent.resolve_right hnot)

end CellContent

end Worksheet
