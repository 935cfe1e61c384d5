import Worksheet.Proofs.Decimal.Text
import Worksheet.Proofs.Formula.Categories

/-!
# The texts of a category

`Category.Includes` says what the texts of a category are, and `Category.matchLength` how much
of a text belongs to it.  What the length cuts off is a text of the category
(`Category.includes_take`), and no text of the category that stands there is longer
(`Category.Includes.length_le`).

## Strategy

Only numbers are more than one run of characters.  A mantissa takes in all digits and the first
point ahead, with or without an exponent behind it (`IsMantissa.mantissaLength_append`).  An
exponent opens with a letter, which ends the mantissa, so the two are measured one after the
other.
-/

namespace Worksheet

namespace Category

open Decimal (IsDigits)

/-! ## The texts of a category -/

/-- The digits of a number: one at least, perhaps with a point among them or at either
end. -/
inductive IsMantissa : List Char → Prop where
  | whole {digits : List Char} (all : IsDigits digits) : IsMantissa digits
  | point {whole fraction : List Char} (all : IsDigits (whole ++ fraction)) :
      IsMantissa (whole ++ '.' :: fraction)

/-- The exponent of a number: an `e` in either case, perhaps a sign, and at least one
digit. -/
inductive IsExponent : List Char → Prop where
  | unsigned {mark : Char} {digits : List Char} (marked : mark = 'e' ∨ mark = 'E')
      (all : IsDigits digits) : IsExponent (mark :: digits)
  | signed {mark sign : Char} {digits : List Char} (marked : mark = 'e' ∨ mark = 'E')
      (signs : sign = '+' ∨ sign = '-') (all : IsDigits digits) :
      IsExponent (mark :: sign :: digits)

/-- The texts of a category. -/
inductive Includes : Category → List Char → Prop where
  | opening : Includes .opening ['(']
  | closing : Includes .closing [')']
  | operator (op : Operator) : Includes .operator [op.symbol]
  | name {first : Char} {rest : List Char} (start : Name.isStart first = true)
      (parts : ∀ c ∈ rest, Name.isPart c = true) : Includes .name (first :: rest)
  | number {mantissa : List Char} (digits : IsMantissa mantissa) : Includes .number mantissa
  | scientific {mantissa exponent : List Char} (digits : IsMantissa mantissa)
      (scale : IsExponent exponent) : Includes .number (mantissa ++ exponent)
  | blank {text : List Char} (nonempty : text ≠ []) (all : ∀ c ∈ text, Text.isBlank c = true) :
      Includes .blank text

/-! ## What matches is a text of the category -/

theorem take_length_takeWhile (p : Char → Bool) (text : List Char) :
    text.take (text.takeWhile p).length = text.takeWhile p :=
  (List.prefix_iff_eq_take.mp (List.takeWhile_prefix p)).symm

theorem isDigit_of_mem_take {text : List Char} {c : Char} (hc : c ∈ text.take (digitsLength text)) :
    c.isDigit = true := by
  rw [digitsLength, take_length_takeWhile] at hc
  exact List.all_eq_true.mp List.all_takeWhile c hc

theorem isDigits_take {text : List Char} (hlength : digitsLength text ≠ 0) :
    IsDigits (text.take (digitsLength text)) := by
  refine ⟨fun hnil => hlength ?_, fun c => isDigit_of_mem_take⟩
  rw [digitsLength, take_length_takeWhile] at hnil
  rw [digitsLength, hnil]
  rfl

theorem digitsLength_eq_zero {text : List Char} (hnil : text.take (digitsLength text) = []) :
    digitsLength text = 0 := by
  by_contra hlength
  exact (isDigits_take hlength).1 hnil

theorem isMantissa_take {text : List Char} (hlength : mantissaLength text ≠ 0) :
    IsMantissa (text.take (mantissaLength text)) := by
  unfold mantissaLength at hlength ⊢
  simp only at hlength ⊢
  split at hlength
  · rename_i rest hrest
    split at hlength
    · exact absurd rfl hlength
    · rename_i hsome
      have htake : text.take (digitsLength text + 1 + digitsLength rest) =
          text.take (digitsLength text) ++ '.' :: rest.take (digitsLength rest) := by
        rw [Nat.add_assoc, List.take_add, hrest, Nat.add_comm 1, List.take_succ_cons]
      rw [if_neg hsome, htake]
      refine .point ⟨fun hnil => ?_, fun c hc => ?_⟩
      · obtain ⟨hwhole, hfraction⟩ := List.append_eq_nil_iff.mp hnil
        exact hsome (by simp [digitsLength_eq_zero hwhole, digitsLength_eq_zero hfraction])
      · exact (List.mem_append.mp hc).elim isDigit_of_mem_take isDigit_of_mem_take
  · exact .whole (isDigits_take hlength)

theorem exponentLength_signed {mark sign : Char} (hmark : mark = 'e' ∨ mark = 'E')
    (hsign : sign = '+' ∨ sign = '-') (rest : List Char) :
    exponentLength (mark :: sign :: rest) =
      if digitsLength rest = 0 then 0 else 2 + digitsLength rest := by
  simp [exponentLength, hmark, hsign]

theorem exponentLength_unsigned {mark : Char} (hmark : mark = 'e' ∨ mark = 'E') {rest : List Char}
    (hrest : ∀ c ∈ rest.head?, ¬ (c = '+' ∨ c = '-')) :
    exponentLength (mark :: rest) =
      if digitsLength rest = 0 then 0 else 1 + digitsLength rest := by
  cases rest with
  | nil => simp [exponentLength, hmark]
  | cons c rest =>
      have hc := hrest c rfl
      simp [exponentLength, hmark, hc]

theorem isExponent_take {text : List Char} (hlength : exponentLength text ≠ 0) :
    IsExponent (text.take (exponentLength text)) := by
  cases text with
  | nil => exact absurd rfl hlength
  | cons mark rest =>
      by_cases hmark : mark = 'e' ∨ mark = 'E'
      · -- A sign counts if digits follow it, and without one the digits have to follow the letter.
        by_cases hsign : ∃ sign digits, rest = sign :: digits ∧ (sign = '+' ∨ sign = '-')
        · obtain ⟨sign, digits, rfl, hsign⟩ := hsign
          rw [exponentLength_signed hmark hsign] at hlength ⊢
          have hdigits : digitsLength digits ≠ 0 := fun hzero => hlength (if_pos hzero)
          rw [if_neg hdigits, Nat.add_comm, List.take_succ_cons, List.take_succ_cons]
          exact .signed hmark hsign (isDigits_take hdigits)
        · have hunsigned : ∀ c ∈ rest.head?, ¬ (c = '+' ∨ c = '-') := by
            intro c hc hsigned
            obtain ⟨digits, rfl⟩ := List.head?_eq_some_iff.mp hc
            exact hsign ⟨c, digits, rfl, hsigned⟩
          rw [exponentLength_unsigned hmark hunsigned] at hlength ⊢
          have hdigits : digitsLength rest ≠ 0 := fun hzero => hlength (if_pos hzero)
          rw [if_neg hdigits, Nat.add_comm, List.take_succ_cons]
          exact .unsigned hmark (isDigits_take hdigits)
      · exact absurd (by simp [exponentLength, hmark]) hlength

/-- What matches is a text of the category. -/
theorem includes_take {category : Category} {text : List Char}
    (hlength : category.matchLength text ≠ 0) :
    category.Includes (text.take (category.matchLength text)) := by
  cases category with
  | opening =>
      obtain ⟨hone, c, rest, rfl, hc⟩ := singleLength_eq hlength
      rw [matchLength, hone, eq_of_beq hc]
      exact .opening
  | closing =>
      obtain ⟨hone, c, rest, rfl, hc⟩ := singleLength_eq hlength
      rw [matchLength, hone, eq_of_beq hc]
      exact .closing
  | operator =>
      obtain ⟨hone, c, rest, rfl, hc⟩ := singleLength_eq hlength
      obtain ⟨op, rfl⟩ := exists_symbol_of_isOperator hc
      rw [matchLength, hone]
      exact .operator op
  | name =>
      cases text with
      | nil => exact absurd rfl hlength
      | cons first rest =>
          by_cases hstart : Name.isStart first = true
          · rw [matchLength, nameLength, if_pos hstart, Nat.add_comm, List.take_succ_cons,
              take_length_takeWhile]
            exact .name hstart fun c hc => List.all_eq_true.mp List.all_takeWhile c hc
          · exact absurd (if_neg hstart) hlength
  | number =>
      simp only [matchLength, numberLength] at hlength ⊢
      split at hlength
      · exact absurd rfl hlength
      · rename_i hmantissa
        rw [if_neg hmantissa, List.take_add]
        by_cases hexponent : exponentLength (text.drop (mantissaLength text)) = 0
        · rw [hexponent, List.take_zero, List.append_nil]
          exact .number (isMantissa_take hmantissa)
        · exact .scientific (isMantissa_take hmantissa) (isExponent_take hexponent)
  | blank =>
      rw [matchLength, take_length_takeWhile]
      refine .blank (fun hnil => hlength ?_) fun c hc => List.all_eq_true.mp List.all_takeWhile c hc
      rw [matchLength, hnil]
      rfl

/-! ## No text of the category is longer -/

theorem length_takeWhile_append {p : Char → Bool} {run : List Char} (hrun : ∀ c ∈ run, p c = true)
    (rest : List Char) :
    ((run ++ rest).takeWhile p).length = run.length + (rest.takeWhile p).length := by
  rw [List.takeWhile_append_of_pos hrun, List.length_append]

theorem digitsLength_run {digits : List Char} (hdigits : ∀ c ∈ digits, c.isDigit = true)
    (rest : List Char) : digitsLength (digits ++ rest) = digits.length + digitsLength rest :=
  length_takeWhile_append hdigits rest

/-- Whether a text does not go on with the digits of a number. -/
def EndsMantissa (rest : List Char) : Prop := ∀ c ∈ rest.head?, c.isDigit = false ∧ c ≠ '.'

theorem EndsMantissa.digitsLength_eq {rest : List Char} (hrest : EndsMantissa rest) :
    digitsLength rest = 0 := by
  cases rest with
  | nil => rfl
  | cons c rest => simp [digitsLength, (hrest c rfl).1]

theorem mantissaLength_point {whole fraction : List Char} (hdigits : IsDigits (whole ++ fraction))
    (rest : List Char) :
    mantissaLength (whole ++ '.' :: (fraction ++ rest)) =
      whole.length + 1 + fraction.length + digitsLength rest := by
  have hwhole : ∀ c ∈ whole, c.isDigit = true := fun c hc =>
    hdigits.2 c (List.mem_append_left _ hc)
  have hfraction : ∀ c ∈ fraction, c.isDigit = true := fun c hc =>
    hdigits.2 c (List.mem_append_right _ hc)
  have hbefore : digitsLength (whole ++ '.' :: (fraction ++ rest)) = whole.length :=
    digitsLength_run hwhole _
  have hbehind := digitsLength_run hfraction rest
  have hpos : 0 < (whole ++ fraction).length := List.length_pos_iff.mpr hdigits.1
  rw [List.length_append] at hpos
  simp only [mantissaLength, hbefore, List.drop_left, hbehind, Bool.and_eq_true, decide_eq_true_eq]
  split <;> omega

/-- A number takes in all digits ahead, and stops where there are no more. -/
theorem IsMantissa.mantissaLength_append {mantissa : List Char} (hmantissa : IsMantissa mantissa)
    (rest : List Char) :
    mantissa.length ≤ mantissaLength (mantissa ++ rest) ∧
      (EndsMantissa rest → mantissaLength (mantissa ++ rest) = mantissa.length) := by
  cases hmantissa with
  | whole hdigits =>
      have hrun := digitsLength_run hdigits.2 rest
      constructor
      · simp only [mantissaLength, hrun]
        split
        · split
          · rename_i hnone
            simp only [Bool.and_eq_true, decide_eq_true_eq] at hnone
            omega
          · omega
        · omega
      · intro hrest
        rw [hrest.digitsLength_eq, Nat.add_zero] at hrun
        simp only [mantissaLength, hrun, List.drop_left]
        split
        · exact absurd rfl (hrest '.' rfl).2
        · rfl
  | point hdigits =>
      rw [List.append_assoc, List.cons_append, mantissaLength_point hdigits]
      simp only [List.length_append, List.length_cons]
      exact ⟨by omega, fun hrest => by rw [hrest.digitsLength_eq]; omega⟩

theorem IsExponent.head {exponent : List Char} (hexponent : IsExponent exponent)
    (rest : List Char) : EndsMantissa (exponent ++ rest) := by
  have hmark {mark : Char} (hmarked : mark = 'e' ∨ mark = 'E') :
      mark.isDigit = false ∧ mark ≠ '.' := by
    rcases hmarked with rfl | rfl <;> decide
  cases hexponent with
  | unsigned hmarked hdigits =>
      rintro c ⟨⟩
      exact hmark hmarked
  | signed hmarked hsign hdigits =>
      rintro c ⟨⟩
      exact hmark hmarked

theorem IsExponent.length_le {exponent : List Char} (hexponent : IsExponent exponent)
    (rest : List Char) : exponent.length ≤ exponentLength (exponent ++ rest) := by
  cases hexponent with
  | @unsigned mark digits hmarked hdigits =>
      have hrun := digitsLength_run hdigits.2 rest
      have hpos := List.length_pos_iff.mpr hdigits.1
      have hunsigned : ∀ c ∈ (digits ++ rest).head?, ¬ (c = '+' ∨ c = '-') := by
        obtain ⟨first, others, rfl⟩ := List.exists_cons_of_ne_nil hdigits.1
        rintro c ⟨⟩ hsigned
        have hdigit := hdigits.2 first (List.mem_cons_self ..)
        rcases hsigned with rfl | rfl <;> cases hdigit
      rw [List.cons_append, exponentLength_unsigned hmarked hunsigned, List.length_cons, hrun]
      split <;> omega
  | @signed mark sign digits hmarked hsign hdigits =>
      have hrun := digitsLength_run hdigits.2 rest
      have hpos := List.length_pos_iff.mpr hdigits.1
      rw [List.cons_append, List.cons_append, exponentLength_signed hmarked hsign,
        List.length_cons, List.length_cons, hrun]
      split <;> omega

theorem IsMantissa.ne_nil {mantissa : List Char} (hmantissa : IsMantissa mantissa) :
    mantissa ≠ [] := by
  cases hmantissa with
  | whole hdigits => exact hdigits.1
  | point hdigits => simp

theorem Includes.ne_nil {category : Category} {text : List Char} (htext : category.Includes text) :
    text ≠ [] := by
  cases htext with
  | opening => exact List.cons_ne_nil _ _
  | closing => exact List.cons_ne_nil _ _
  | operator op => exact List.cons_ne_nil _ _
  | name hstart hparts => exact List.cons_ne_nil _ _
  | number hmantissa => exact hmantissa.ne_nil
  | scientific hmantissa hexponent => exact List.append_ne_nil_of_left_ne_nil hmantissa.ne_nil _
  | blank hne hall => exact hne

/-- No text of a category that stands ahead is longer than what matches. -/
theorem Includes.length_le {category : Category} {text : List Char}
    (htext : category.Includes text) (rest : List Char) :
    text.length ≤ category.matchLength (text ++ rest) := by
  cases htext with
  | opening => exact Nat.le_refl 1
  | closing => exact Nat.le_refl 1
  | operator op => cases op <;> exact Nat.le_refl 1
  | @name first parts hstart hparts =>
      have hrun := length_takeWhile_append hparts rest
      rw [List.cons_append, matchLength, nameLength, if_pos hstart, hrun, List.length_cons]
      omega
  | number hmantissa =>
      have hle := (hmantissa.mantissaLength_append rest).1
      have hpos := List.length_pos_iff.mpr hmantissa.ne_nil
      simp only [matchLength, numberLength]
      split <;> omega
  | @scientific mantissa exponent hmantissa hexponent =>
      have hend := (hmantissa.mantissaLength_append (exponent ++ rest)).2 (hexponent.head rest)
      have hpos := List.length_pos_iff.mpr hmantissa.ne_nil
      have hle := hexponent.length_le rest
      simp only [matchLength, numberLength, List.append_assoc, hend, List.drop_left,
        List.length_append]
      split <;> omega
  | blank hne hall =>
      have hrun := length_takeWhile_append hall rest
      rw [matchLength, hrun]
      omega

end Category

end Worksheet
