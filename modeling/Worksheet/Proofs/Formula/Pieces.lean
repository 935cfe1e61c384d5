import Worksheet.Formula
import Worksheet.Proofs.Formula.Categories
import Worksheet.Proofs.Formula.Derivation
import Worksheet.Proofs.Formula.Texts
import Worksheet.Proofs.Number.Text

/-!
# Tokens in a row

The canonical text of a formula has nothing between its tokens, and yet it is cut into
the texts of these tokens again (`Piece.lexemes_chars`).

## Strategy

Which category matches is decided by the first character (`Category.match?_eq_some_iff`), so
it remains to see where a match stops.  A number goes on over digits, a point and an
exponent, and a name over letters and digits.  Behind either of them the grammar allows
only the end, an operator or a closing parenthesis, and none of these goes on with it
(`Token.match?_append`).
-/

namespace Worksheet

namespace Category

/-! ## Where a match stops -/

/-- Whether a text can stand behind an operand: it is at its end, or goes on with an
operator or a closing parenthesis. -/
def ClosesOperand (rest : List Char) : Prop :=
  ∀ c ∈ rest.head?, operator.opens c = true ∨ closing.opens c = true

variable {c : Char} {rest : List Char}

theorem ClosesOperand.opens_eq_false (hrest : ClosesOperand (c :: rest)) (category : Category)
    (hoperator : category ≠ operator) (hclosing : category ≠ closing) :
    category.opens c = false := by
  by_contra hopens
  rw [Bool.not_eq_false] at hopens
  rcases hrest c rfl with hc | hc
  · exact hoperator (eq_of_opens hopens hc)
  · exact hclosing (eq_of_opens hopens hc)

/-- No number goes on with what can stand behind an operand. -/
theorem ClosesOperand.not_number (hrest : ClosesOperand (c :: rest)) :
    c.isDigit = false ∧ c ≠ '.' := by
  simpa [opens] using hrest.opens_eq_false number (by decide) (by decide)

/-- No name goes on with what can stand behind an operand. -/
theorem ClosesOperand.not_isPart (hrest : ClosesOperand (c :: rest)) :
    Name.isPart c = false := by
  have hstart : Name.isStart c = false :=
    hrest.opens_eq_false name (by decide) (by decide)
  rw [Name.isStart, Bool.or_eq_false_iff] at hstart
  simp [Name.isPart, Char.isAlphanum, hstart, hrest.not_number.1]

theorem ClosesOperand.endsMantissa (hrest : ClosesOperand rest) : EndsMantissa rest := by
  cases rest with
  | nil => exact fun c hc => nomatch hc
  | cons c rest =>
      rintro c ⟨⟩
      exact hrest.not_number

theorem ClosesOperand.exponentLength_eq (hrest : ClosesOperand rest) :
    exponentLength rest = 0 := by
  cases rest with
  | nil => rfl
  | cons c rest =>
      have hpart := hrest.not_isPart
      have hlower : c ≠ 'e' := by
        rintro rfl
        cases hpart
      have hupper : c ≠ 'E' := by
        rintro rfl
        cases hpart
      simp [exponentLength, hlower, hupper]

theorem isMantissa_chars (d : Decimal) : IsMantissa d.chars := by
  rcases d.chars_cases with ⟨-, hchars⟩ | ⟨whole, fraction, hwhole, hfraction, hchars, -⟩
  · rw [hchars]
    exact .whole (Decimal.isDigits_toDigits d.numerator)
  · rw [hchars]
    exact .point (hwhole.append hfraction)

/-- A number ends with its digits if what follows can stand behind an operand. -/
theorem ClosesOperand.numberLength_append (hrest : ClosesOperand rest) (d : Decimal) :
    numberLength (d.chars ++ rest) = d.chars.length := by
  have hmantissa := ((isMantissa_chars d).mantissaLength_append rest).2 hrest.endsMantissa
  simp only [numberLength, hmantissa, List.drop_left, hrest.exponentLength_eq, Nat.add_zero]
  split
  · rename_i hzero
    exact hzero.symm
  · rfl

/-- A name ends with its letters and digits if what follows can stand behind an operand. -/
theorem ClosesOperand.nameLength_append (hrest : ClosesOperand rest) {name : List Char}
    (hname : Name.isLegalSpelling name = true) : nameLength (name ++ rest) = name.length := by
  cases name with
  | nil => cases hname
  | cons first parts =>
      simp only [Name.isLegalSpelling, Bool.and_eq_true, List.all_eq_true] at hname
      have hstop : rest.takeWhile Name.isPart = [] := by
        cases rest with
        | nil => rfl
        | cons c rest => simp [hrest.not_isPart]
      simp only [List.cons_append, nameLength, hname.1, if_true, List.length_cons]
      rw [List.takeWhile_append_of_pos hname.2, hstop, List.append_nil, Nat.add_comm]

end Category

/-! ## Tokens and their pieces -/

namespace Token

/-- The category of the text of a token. -/
def category : Token → Category
  | number _ => .number
  | name _ => .name
  | operator _ => .operator
  | opening => .opening
  | closing => .closing

/-- A token as a piece of a source. -/
def piece (token : Token) : Piece := ⟨some token.category, token.chars⟩

/-- Whether the text of a token is one piece: a number is finite and has no sign, and a
name is legal. -/
def IsPlain : Token → Prop
  | number value => Number.isFinite value = true ∧ Number.isSigned value = false
  | name stored => Name.isLegal stored = true
  | _ => True

variable {token : Token}

theorem length_chars_pos (hplain : token.IsPlain) : 0 < token.chars.length := by
  cases token with
  | number value =>
      rw [chars, Number.chars_of_isFinite hplain.1, hplain.2]
      obtain ⟨c, rest, hchars, -⟩ :=
        Number.exists_cons_of_decimal (Decimal.shortest (Number.pattern value))
      simp [hchars]
  | name stored =>
      have hlegal : Name.isLegalSpelling stored.toList = true := hplain
      cases hchars : stored.toList with
      | nil => simp [hchars, Name.isLegalSpelling] at hlegal
      | cons c rest => simp [chars, hchars]
  | operator op => exact Nat.one_pos
  | opening => exact Nat.one_pos
  | closing => exact Nat.one_pos

/-- At the start of the text of a token, what matches is that text. -/
theorem match?_append (hplain : token.IsPlain) {rest : List Char}
    (hrest : token.endsOperand = true → Category.ClosesOperand rest) :
    Category.match? (token.chars ++ rest) = some (token.category, token.chars.length) := by
  refine Category.match?_eq_some_iff.mpr ⟨?_, (length_chars_pos hplain).ne'⟩
  cases token with
  | number value =>
      have hchars : chars (.number value) = (Decimal.shortest (Number.pattern value)).chars := by
        simp [chars, Number.chars_of_isFinite hplain.1, hplain.2]
      rw [hchars]
      exact (hrest rfl).numberLength_append _
  | name stored => exact (hrest rfl).nameLength_append hplain
  | operator op => cases op <;> rfl
  | opening => rfl
  | closing => rfl

end Token

/-! ## Cutting the tokens apart -/

namespace Grammar

variable {tokens : List Token} {token : Token} {wantsOperand : Bool} {depth : Nat}

theorem Accepts.tail (haccepts : Accepts wantsOperand depth (token :: tokens)) :
    ∃ depth, Accepts (!token.endsOperand) depth tokens := by
  cases token with
  | number value => exact ⟨_, haccepts.2⟩
  | name stored => exact ⟨_, haccepts.2⟩
  | operator op => exact ⟨_, haccepts.2⟩
  | opening => exact ⟨_, haccepts.2⟩
  | closing => exact ⟨_, haccepts.2.2⟩

/-- Behind an operand there is nothing, an operator or a closing parenthesis. -/
theorem Accepts.closesOperand (haccepts : Accepts false depth tokens) :
    Category.ClosesOperand (tokens.flatMap Token.chars) := by
  cases tokens with
  | nil =>
      intro c hc
      cases hc
  | cons token tokens =>
      cases token with
      | number value => cases haccepts.1
      | name stored => cases haccepts.1
      | operator op =>
          intro c hc
          cases hc
          cases op <;> exact Or.inl rfl
      | opening => cases haccepts.1
      | closing =>
          intro c hc
          cases hc
          exact Or.inr rfl

end Grammar

namespace Piece

theorem scan_append {text rest : List Char} {category : Category} (htext : text ≠ [])
    (hmatch : Category.match? (text ++ rest) = some (category, text.length)) :
    scan (text ++ rest) = ⟨some category, text⟩ :: scan rest := by
  have hfirst : first (text ++ rest) = ⟨some category, text⟩ := by
    rw [first, hmatch]
    simp
  cases text with
  | nil => exact absurd rfl htext
  | cons c text =>
      rw [List.cons_append] at hfirst ⊢
      rw [scan, hfirst]
      simp

theorem scan_flatMap_chars {tokens : List Token} {wantsOperand : Bool} {depth : Nat}
    (haccepts : Grammar.Accepts wantsOperand depth tokens)
    (hplain : ∀ token ∈ tokens, token.IsPlain) :
    scan (tokens.flatMap Token.chars) = tokens.map Token.piece := by
  induction tokens generalizing wantsOperand depth with
  | nil => rw [List.flatMap_nil, scan, List.map_nil]
  | cons token tokens ih =>
      obtain ⟨depth', hrest⟩ := haccepts.tail
      have htoken := hplain token (List.mem_cons_self ..)
      have hcloses : token.endsOperand = true →
          Category.ClosesOperand (tokens.flatMap Token.chars) := fun hends => by
        rw [hends] at hrest
        exact hrest.closesOperand
      rw [List.flatMap_cons, List.map_cons,
        scan_append (List.ne_nil_of_length_pos (Token.length_chars_pos htoken))
          (Token.match?_append htoken hcloses),
        ih hrest fun other hother => hplain other (List.mem_cons_of_mem _ hother)]
      rfl

/-- The canonical text of a formula is cut into its tokens. -/
theorem lexemes_chars (f : Formula) (hplain : ∀ token ∈ f.tokens, token.IsPlain) :
    lexemes f.chars = f.tokens.map Token.piece := by
  have hscan := scan_flatMap_chars (Grammar.fault?_eq_none_iff_accepts.mp f.grammatical) hplain
  rw [lexemes, Formula.chars, hscan, List.filter_eq_self]
  intro piece hpiece
  obtain ⟨token, -, rfl⟩ := List.mem_map.mp hpiece
  cases token <;> rfl

end Piece

end Worksheet
