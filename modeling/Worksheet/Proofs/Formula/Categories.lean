import Mathlib.Tactic.ByContra
import Worksheet.Formula.Piece
import Worksheet.Formula.Token

/-!
# Categories of text

Categories differ in the characters with which their texts open (`Category.eq_of_opens`).
So at most one of them matches at any place, and what is found there is the one that does
(`Category.match?_eq_some_iff`).
-/

namespace Worksheet.Category

/-! ## Single characters -/

/-- Where one character matches, it is the first. -/
theorem singleLength_eq {isWanted : Char → Bool} {text : List Char}
    (hlength : singleLength isWanted text ≠ 0) :
    singleLength isWanted text = 1 ∧ ∃ c rest, text = c :: rest ∧ isWanted c = true := by
  cases text with
  | nil => simp [singleLength] at hlength
  | cons c rest =>
      by_cases hwanted : isWanted c = true
      · exact ⟨if_pos hwanted, c, rest, rfl, hwanted⟩
      · exact absurd (if_neg hwanted) hlength

theorem exists_symbol_of_isOperator {c : Char} (hc : isOperator c = true) :
    ∃ op : Operator, c = op.symbol := by
  simp only [isOperator, Bool.or_eq_true, beq_iff_eq] at hc
  rcases hc with ((rfl | rfl) | rfl) | rfl
  · exact ⟨.plus, rfl⟩
  · exact ⟨.minus, rfl⟩
  · exact ⟨.times, rfl⟩
  · exact ⟨.divide, rfl⟩

/-! ## First characters -/

/-- The characters with which the texts of a category open. -/
def opens : Category → Char → Bool
  | opening, c => c == '('
  | closing, c => c == ')'
  | operator, c => isOperator c
  | name, c => Name.isStart c
  | number, c => c.isDigit || c == '.'
  | blank, c => Text.isBlank c

/-- Where the code points of these characters lie.  White space lies around the visible
characters of ASCII. -/
def Codes : Category → Nat → Prop
  | opening, code => code = 40
  | closing, code => code = 41
  | operator, code => code = 42 ∨ code = 43 ∨ code = 45 ∨ code = 47
  | name, code => 65 ≤ code ∧ code ≤ 90 ∨ 97 ≤ code ∧ code ≤ 122 ∨ code = 95
  | number, code => 48 ≤ code ∧ code ≤ 57 ∨ code = 46
  | blank, code => code ≤ 32 ∨ 128 ≤ code

theorem codes_of_opens {category : Category} {c : Char} (hopens : category.opens c = true) :
    category.Codes c.toNat := by
  cases category with
  | opening =>
      cases beq_iff_eq.mp hopens
      rfl
  | closing =>
      cases beq_iff_eq.mp hopens
      rfl
  | operator =>
      simp only [opens, isOperator, Bool.or_eq_true, beq_iff_eq] at hopens
      rcases hopens with ((rfl | rfl) | rfl) | rfl <;> simp [Codes]
  | name =>
      rcases Bool.or_eq_true_iff.mp hopens with halpha | hline
      · rcases Bool.or_eq_true_iff.mp halpha with hupper | hlower
        · exact Or.inl (of_decide_eq_true hupper)
        · obtain ⟨hfrom, hto⟩ := Bool.and_eq_true_iff.mp hlower
          exact Or.inr (Or.inl ⟨of_decide_eq_true hfrom, of_decide_eq_true hto⟩)
      · cases beq_iff_eq.mp hline
        exact Or.inr (Or.inr rfl)
  | number =>
      simp only [opens, Bool.or_eq_true, beq_iff_eq] at hopens
      rcases hopens with hdigit | rfl
      · exact Or.inl (Char.isDigit_iff_toNat.mp hdigit)
      · exact Or.inr rfl
  | blank =>
      obtain ⟨range, hrange, hinside⟩ := List.any_eq_true.mp hopens
      have haround : ∀ range ∈ Text.blankRanges, range.2 ≤ 32 ∨ 128 ≤ range.1 := by decide
      have hends := haround range hrange
      simp only [Bool.and_eq_true, decide_eq_true_eq] at hinside
      simp only [Codes]
      omega

/-- No character opens texts of two categories. -/
theorem eq_of_opens {first second : Category} {c : Char} (hfirst : first.opens c = true)
    (hsecond : second.opens c = true) : first = second := by
  have hcodes := codes_of_opens hfirst
  have hcodes' := codes_of_opens hsecond
  cases first <;> cases second <;> simp only [Codes] at hcodes hcodes' <;> first | rfl | omega

theorem opens_of_matchLength {category : Category} {c : Char} {rest : List Char}
    (hlength : category.matchLength (c :: rest) ≠ 0) : category.opens c = true := by
  have hsingle {isWanted : Char → Bool} (hone : singleLength isWanted (c :: rest) ≠ 0) :
      isWanted c = true := by
    obtain ⟨-, first, tail, htext, hwanted⟩ := singleLength_eq hone
    cases htext
    exact hwanted
  cases category with
  | opening => exact hsingle hlength
  | closing => exact hsingle hlength
  | operator => exact hsingle hlength
  | name =>
      by_contra hstart
      exact hlength (if_neg hstart)
  | number =>
      by_contra hopens
      obtain ⟨hdigit, hpoint⟩ : c.isDigit = false ∧ c ≠ '.' := by simpa [opens] using hopens
      have hmantissa : mantissaLength (c :: rest) = 0 := by
        simp [mantissaLength, digitsLength, hdigit, hpoint]
      exact hlength (by simp [matchLength, numberLength, hmantissa])
  | blank =>
      by_contra hblank
      have hblank : ¬ Text.isBlank c = true := hblank
      exact hlength (by simp [matchLength, hblank])

/-- What matches is the category that the first character opens. -/
theorem match?_eq_some_iff {category : Category} {text : List Char} {length : Nat} :
    match? text = some (category, length) ↔ category.matchLength text = length ∧ length ≠ 0 := by
  constructor
  · intro hmatch
    obtain ⟨candidate, -, hcandidate⟩ := List.exists_of_findSome?_eq_some hmatch
    simp only at hcandidate
    split at hcandidate
    · cases hcandidate
    · rename_i hlength
      cases hcandidate
      exact ⟨rfl, hlength⟩
  · rintro ⟨hlength, hpos⟩
    cases text with
    | nil =>
        have hzero : category.matchLength [] = 0 := by cases category <;> rfl
        exact absurd (hlength.symm.trans hzero) hpos
    | cons c rest =>
        have hopens := opens_of_matchLength (hlength ▸ hpos)
        have hothers {other : Category} (hne : other ≠ category) :
            other.matchLength (c :: rest) = 0 := by
          by_contra hother
          exact hne (eq_of_opens (opens_of_matchLength hother) hopens)
        cases category <;> simp [match?, all, hothers, hlength, hpos]

end Worksheet.Category
