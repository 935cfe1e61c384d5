import Worksheet.Name.Stock
import Worksheet.Proofs.Formula.Canonical
import Worksheet.Proofs.Formula.LongestMatch

/-!
# Every cell can be mentioned

A text is the name of a cell if and only if the scan takes the whole of it for a name.  So every
cell can be mentioned in a formula by the name that it is stored under, and that name is a formula
by itself (`Formula.read_stored_name`).

## Strategy

Legality and the category of names are one description of characters (`Name.isLegal_iff_includes`).
A text of any category is a single piece, since nothing in it is longer than itself
(`Piece.scan_of_includes`).
-/

namespace Worksheet

theorem Name.isLegal_iff_includes {name : String} :
    isLegal name = true ↔ Category.name.Includes name.toList := by
  unfold isLegal
  constructor
  · intro hlegal
    cases hname : name.toList with
    | nil =>
        rw [hname] at hlegal
        cases hlegal
    | cons first rest =>
        rw [hname, isLegalSpelling, Bool.and_eq_true, List.all_eq_true] at hlegal
        exact .name hlegal.1 hlegal.2
  · intro hincluded
    generalize name.toList = text at hincluded
    cases hincluded with
    | name hstart hparts =>
        rw [isLegalSpelling, Bool.and_eq_true, List.all_eq_true]
        exact ⟨hstart, hparts⟩

namespace Piece

variable {category : Category} {text : List Char}

/-- A text of a category is a single piece. -/
theorem scan_of_includes (hincluded : category.Includes text) :
    scan text = [⟨some category, text⟩] := by
  have hfits : Fits ⟨some category, text⟩ [] := by
    refine .known hincluded fun other found _ hahead => ?_
    rw [List.append_nil] at hahead
    exact hahead.length_le
  have hscan := (Cuts.cons hfits .nil).scan_eq
  rwa [List.append_nil] at hscan

theorem lexemes_eq_singleton_iff (hcategory : category ≠ .blank) :
    lexemes text = [⟨some category, text⟩] ↔ category.Includes text := by
  constructor
  · intro hlexemes
    exact includes_of_mem_lexemes (hlexemes ▸ List.mem_singleton_self _) rfl
  · intro hincluded
    rw [lexemes, scan_of_includes hincluded]
    simpa using hcategory

end Piece

namespace Formula

/-- A text is a legal name if and only if it is one lexeme, a name.  Where a stored form is its own
stored form, a name that resolves is stored under a name that is a formula by itself, and that
resolves to itself. -/
theorem read_stored_name :
    (∀ name : String, Name.isLegal name = true ↔
      Piece.lexemes name.toList = [⟨some .name, name.toList⟩]) ∧
    ∀ rules : NameRules, rules.IsIdempotent → ∀ name stored, rules.resolve name = some stored →
      (∃ f, read rules stored = .ok f ∧ f.tokens = [.name stored]) ∧
        rules.resolve stored = some stored := by
  have hlegal (name : String) : Name.isLegal name = true ↔
      Piece.lexemes name.toList = [⟨some .name, name.toList⟩] := by
    rw [Name.isLegal_iff_includes, Piece.lexemes_eq_singleton_iff (by decide)]
  refine ⟨hlegal, fun rules hrules name stored hresolve => ?_⟩
  have hstored := hrules.resolve_stored hresolve
  have hplain : (Token.name stored).IsPlain := (NameRules.stores_of_resolve hresolve).1
  have hmeans : Token.Means rules ⟨some .name, stored.toList⟩ (.name stored) := by
    refine hplain.means_piece ?_
    rintro _ ⟨⟩
    exact hstored
  refine ⟨⟨⟨[.name stored], rfl⟩, ?_, rfl⟩, hstored⟩
  rw [read, readChars_eq_ok_iff, (hlegal stored).mp hplain]
  exact .cons hmeans .nil

/-- Neither a blank nor a line end is part of a name. -/
theorem read_stored_name_upper :
    let rules := NameRules.stock .upper .lettersThenDigits
    (Name.isLegal "_b1" = true ∧ Piece.lexemes "_b1".toList = [⟨some .name, "_b1".toList⟩]) ∧
      (Name.isLegal "b1\n" = false ∧
        Piece.lexemes "b1\n".toList ≠ [⟨some .name, "b1\n".toList⟩]) ∧
      rules.resolve "ab12" = some "AB12" ∧
      (∃ f, read rules "AB12" = .ok f ∧ f.tokens = [.name "AB12"]) ∧
        rules.resolve "AB12" = some "AB12" := by
  intro rules
  obtain ⟨hlegal, hstored⟩ := read_stored_name
  have hrules : rules.IsIdempotent := fun name => by
    have htwice : Char.toUpper ∘ Char.toUpper = Char.toUpper :=
      funext Char.toUpper_toUpper_eq_toUpper
    simp [rules, NameRules.stock, Normalizer.apply, htwice]
  have hname : Name.isLegal "_b1" = true := by decide
  have hending : Name.isLegal "b1\n" = false := by decide
  have hresolve : rules.resolve "ab12" = some "AB12" := by decide +kernel
  refine ⟨⟨hname, (hlegal "_b1").mp hname⟩, ⟨hending, ?_⟩, hresolve,
    hstored rules hrules "ab12" "AB12" hresolve⟩
  exact mt (hlegal "b1\n").mpr (by simp [hending])

end Formula

end Worksheet
