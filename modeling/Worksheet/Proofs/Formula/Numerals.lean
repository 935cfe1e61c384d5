import Worksheet.Proofs.Formula.Canonical

/-!
# Numbers among the lexemes

What the scan takes for a number is read as one.  The reader accepts every text of the category, and
what it reads has no sign and is a number or, for a text that is too large, infinity
(`Formula.reads_numbers`).  So no source is refused for a number that cannot be read, and the
numbers of a formula are finite and not negative.

## Strategy

The category and the reader describe numbers in different words, one by what the text is made of
and the other by what it cuts off in turn.  Digits with a point are cut off by the reader as a whole
(`Category.IsMantissa.read?_append`), since neither an exponent nor the end of the text goes on with
them, and what is left is an exponent or nothing.
-/

namespace Worksheet

namespace Category

open Decimal (IsDigits ofDigits readExponent? readSigned?)

/-! ## What the reader cuts off -/

theorem EndsMantissa.head?_all {rest : List Char} (hrest : EndsMantissa rest) :
    rest.head?.all fun c => !c.isDigit := by
  cases rest with
  | nil => rfl
  | cons c rest => simp [(hrest c rfl).1]

/-- The reader takes in the digits of a number with their point and goes on behind them. -/
theorem IsMantissa.read?_append {mantissa rest : List Char} (hmantissa : IsMantissa mantissa)
    (hrest : EndsMantissa rest) :
    ∃ digits places : Nat, Decimal.read? (mantissa ++ rest) =
      (readExponent? rest).map fun exponent => ⟨digits, exponent - places⟩ := by
  cases hmantissa with
  | whole hdigits =>
      obtain ⟨htake, hdrop⟩ := Decimal.takeWhile_isDigit hdigits.2 rest hrest.head?_all
      refine ⟨ofDigits mantissa, 0, ?_⟩
      simp only [Decimal.read?, htake, hdrop]
      split
      · exact absurd rfl (hrest '.' rfl).2
      · simp [hdigits.1]
  | @point whole fraction hdigits =>
      have hwhole : ∀ c ∈ whole, c.isDigit = true := fun c hc =>
        hdigits.2 c (List.mem_append_left _ hc)
      have hfraction : ∀ c ∈ fraction, c.isDigit = true := fun c hc =>
        hdigits.2 c (List.mem_append_right _ hc)
      obtain ⟨htake, hdrop⟩ :=
        Decimal.takeWhile_isDigit hwhole ('.' :: (fraction ++ rest)) rfl
      obtain ⟨htail, hend⟩ := Decimal.takeWhile_isDigit hfraction rest hrest.head?_all
      have hsome : ¬ (whole = [] ∧ fraction = []) := by
        rintro ⟨rfl, rfl⟩
        exact hdigits.1 rfl
      refine ⟨ofDigits (whole ++ fraction), fraction.length, ?_⟩
      simp [Decimal.read?, htake, hdrop, htail, hend, hsome]

theorem readSigned?_digits {digits : List Char} (hdigits : IsDigits digits) :
    readSigned? digits = some (ofDigits digits : Int) := by
  have hall : digits.all Char.isDigit = true := List.all_eq_true.mpr hdigits.2
  obtain ⟨first, others, rfl⟩ := List.exists_cons_of_ne_nil hdigits.1
  have hfirst := hdigits.2 first (List.mem_cons_self ..)
  unfold readSigned?
  split
  · rename_i heq
    cases heq
    cases hfirst
  · rename_i heq
    cases heq
    cases hfirst
  · simp [hall]

theorem IsExponent.exists_readExponent? {exponent : List Char} (hexponent : IsExponent exponent) :
    ∃ scale, readExponent? exponent = some scale := by
  cases hexponent with
  | @unsigned mark digits hmarked hdigits =>
      have hread := readSigned?_digits hdigits
      rcases hmarked with rfl | rfl <;> exact ⟨_, hread⟩
  | @signed mark sign digits hmarked hsign hdigits =>
      have hread : ∃ scale, readSigned? (sign :: digits) = some scale := by
        have hall : digits.all Char.isDigit = true := List.all_eq_true.mpr hdigits.2
        rcases hsign with rfl | rfl
        · exact ⟨ofDigits digits, by simp [readSigned?, hdigits.1, hall]⟩
        · exact ⟨-(ofDigits digits : Int), by simp [readSigned?, hdigits.1, hall]⟩
      rcases hmarked with rfl | rfl <;> exact hread

/-- A text of the category is a decimal. -/
theorem Includes.exists_decimal {text : List Char} (htext : Category.number.Includes text) :
    ∃ d, Decimal.read? text = some d := by
  cases htext with
  | number hmantissa =>
      have hends : EndsMantissa [] := fun c hc => nomatch hc
      obtain ⟨digits, places, hread⟩ := hmantissa.read?_append hends
      rw [List.append_nil] at hread
      exact ⟨_, hread⟩
  | @scientific mantissa exponent hmantissa hexponent =>
      have hends : EndsMantissa exponent := by simpa using hexponent.head []
      obtain ⟨digits, places, hread⟩ := hmantissa.read?_append hends
      obtain ⟨scale, hscale⟩ := hexponent.exists_readExponent?
      rw [hscale] at hread
      exact ⟨_, hread⟩

end Category

/-! ## What the reader reads -/

/-- A decimal without a sign is read as the double nearest to it. -/
theorem Number.readChars?_of_decimal {c : Char} (hc : OpensDigits c) {rest : List Char}
    {d : Decimal} (hread : Decimal.read? (c :: rest) = some d) :
    readChars? (c :: rest) = some (ofPattern false d.nearest) := by
  rw [readChars?_cons hc, readUnsigned?_cons hc, hread]
  rfl

namespace Piece

variable {source : List Char} {piece : Piece}

/-- A number among the lexemes is read as the double nearest to some decimal. -/
theorem exists_nearest_of_mem_lexemes (hpiece : piece ∈ lexemes source)
    (hcategory : piece.category = some .number) :
    ∃ d : Decimal, Number.readChars? piece.text = some (Number.ofPattern false d.nearest) := by
  obtain ⟨d, hread⟩ := (includes_of_mem_lexemes hpiece hcategory).exists_decimal
  obtain ⟨c, rest, htext, hopens⟩ := exists_cons_of_mem_lexemes hpiece hcategory
  rw [htext] at hread ⊢
  exact ⟨d, Number.readChars?_of_decimal hopens hread⟩

end Piece

/-! ## Faults -/

/-- Whether a fault is that of a single lexeme, and not of the grammar. -/
def FormatFault.IsOfLexeme : FormatFault → Prop
  | badNumber .. | numberOutOfRange .. | illegalName .. | nameNotAllowed .. | unrecognized .. => True
  | empty | badStart .. | badEnd .. | expectedOperator .. | expectedOperand ..
  | unmatchedClosing .. | unbalanced .. => False

namespace Grammar

theorem not_isOfLexeme_of_endsFault? {tokens : List Token} {fault : FormatFault}
    (hfault : endsFault? tokens = some fault) : ¬ fault.IsOfLexeme := by
  unfold endsFault? at hfault
  split at hfault
  · split at hfault
    · cases hfault
      exact id
    · split at hfault
      · cases hfault
        exact id
      · cases hfault
  · cases hfault
    exact id

theorem not_isOfLexeme_of_neighboursFault? {tokens : List Token} {index : Nat}
    {fault : FormatFault} (hfault : neighboursFault? index tokens = some fault) :
    ¬ fault.IsOfLexeme := by
  fun_induction neighboursFault? index tokens with
  | case1 index before found rest ih =>
      rcases Option.or_eq_some_iff.mp hfault with hpair | ⟨-, hrest⟩
      · unfold pairFault? at hpair
        split at hpair
        · cases hpair
          exact id
        · cases hpair
          exact id
        · cases hpair
      · exact ih hrest
  | case2 => cases hfault

theorem not_isOfLexeme_of_parenthesesFault? {tokens : List Token} {index opened closed : Nat}
    {fault : FormatFault} (hfault : parenthesesFault? index opened closed tokens = some fault) :
    ¬ fault.IsOfLexeme := by
  fun_induction parenthesesFault? index opened closed tokens with
  | case1 => cases hfault
  | case2 =>
      cases hfault
      exact id
  | case3 index opened closed rest ih => exact ih hfault
  | case4 =>
      cases hfault
      exact id
  | case5 index opened closed rest hopened ih => exact ih hfault
  | case6 index opened closed token rest hopening hclosing ih => exact ih hfault

/-- The grammar has faults of its own. -/
theorem not_isOfLexeme_of_fault? {tokens : List Token} {fault : FormatFault}
    (hfault : fault? tokens = some fault) : ¬ fault.IsOfLexeme := by
  rcases Option.or_eq_some_iff.mp hfault with hends | ⟨-, hinside⟩
  · exact not_isOfLexeme_of_endsFault? hends
  · rcases Option.or_eq_some_iff.mp hinside with hneighbours | ⟨-, hparentheses⟩
    · exact not_isOfLexeme_of_neighboursFault? hneighbours
    · exact not_isOfLexeme_of_parenthesesFault? hparentheses

end Grammar

theorem Token.readChars?_of_badNumber {rules : NameRules} {index place : Nat} {piece : Piece}
    {text : String} (hpiece : ofPiece rules index piece = .error (.badNumber place text)) :
    piece.category = some .number ∧ Number.readChars? piece.text = none := by
  unfold ofPiece at hpiece
  split at hpiece
  · cases hpiece
  · cases hpiece
  · split at hpiece <;> cases hpiece
  · rename_i hcategory
    split at hpiece
    · split at hpiece <;> cases hpiece
    · rename_i hnone
      exact ⟨hcategory, hnone⟩
  · simp only at hpiece
    split at hpiece
    · cases hpiece
    · split at hpiece <;> cases hpiece
  · cases hpiece
  · cases hpiece

namespace Formula

/-- A source that is refused has a fault of a lexeme or one of the grammar. -/
theorem exists_fault_of_readChars {rules : NameRules} {source : List Char} {fault : FormatFault}
    (hread : readChars rules source = .error fault) :
    (∃ piece ∈ Piece.lexemes source, ∃ index, Token.ofPiece rules index piece = .error fault) ∨
      ∃ tokens, Grammar.fault? tokens = some fault := by
  rcases bind_eq_error_iff.mp hread with htokens | ⟨tokens, -, hof⟩
  · obtain ⟨⟨piece, index⟩, hentry, hcause⟩ := exists_of_mapM_eq_error htokens
    exact Or.inl ⟨piece, List.fst_mem_of_mem_zipIdx hentry, index, hcause⟩
  · unfold ofTokens at hof
    split at hof
    · cases hof
    · rename_i cause hcause
      cases hof
      exact Or.inr ⟨tokens, hcause⟩

/-- Every number among the lexemes of a source is read, as a number without a sign or, if it is too
large, as infinity.  So no source is refused for a number that cannot be read, and the numbers of
a formula are finite and have no sign. -/
theorem reads_numbers (source : String) :
    (∀ piece ∈ Piece.lexemes source.toList, piece.category = some .number →
      ∃ value, Number.readChars? piece.text = some value ∧ value.isNaN = false ∧
        Number.isSigned value = false ∧
          (Number.isFinite value = true ∨ value = Number.ofPattern false Binary64.infinity)) ∧
    ∀ rules,
      (∀ index text, read rules source ≠ .error (.badNumber index text)) ∧
      ∀ f, read rules source = .ok f → ∀ value, .number value ∈ f.tokens →
        Number.isFinite value = true ∧ Number.isSigned value = false := by
  refine ⟨fun piece hpiece hcategory => ?_, fun rules => ⟨fun index text hread => ?_, ?_⟩⟩
  · obtain ⟨d, hread⟩ := Piece.exists_nearest_of_mem_lexemes hpiece hcategory
    have hle := d.nearest_le_infinity
    obtain ⟨hpattern, hsign⟩ := Number.pattern_ofPattern hle
    have hnan := Number.isNaN_eq_false (hpattern.trans_le hle)
    exact ⟨_, hread, hnan, hsign, Number.isFinite_or_eq_infinity hle⟩
  · rcases exists_fault_of_readChars hread with ⟨piece, hpiece, place, hfault⟩ | ⟨tokens, hfault⟩
    · obtain ⟨hcategory, hnone⟩ := Token.readChars?_of_badNumber hfault
      obtain ⟨d, hsome⟩ := Piece.exists_nearest_of_mem_lexemes hpiece hcategory
      rw [hnone] at hsome
      cases hsome
    · exact Grammar.not_isOfLexeme_of_fault? hfault trivial
  · intro f hread value htoken
    exact isPlain_of_readChars hread htoken

/-- The first source has a number that is too large; the other two numbers are zero, one because
it is too small. -/
theorem reads_numbers_out_of_range :
    (∃ value, Number.readChars? ".5e400".toList = some value ∧ value.isNaN = false ∧
        Number.isSigned value = false ∧
          (Number.isFinite value = true ∨ value = Number.ofPattern false Binary64.infinity)) ∧
      (read {} "7.-.5e400").map text = .error (.numberOutOfRange 2 ".5e400") ∧
      (∀ index text, read {} "7.-.5e400" ≠ .error (.badNumber index text)) ∧
      ∃ f, read {} "0.-1E-400" = .ok f ∧ f.tokens = [.number 0, .operator .minus, .number 0] ∧
        Number.isFinite 0 = true ∧ Number.isSigned 0 = false := by
  obtain ⟨hlexemes, hreads⟩ := reads_numbers "7.-.5e400"
  obtain ⟨-, hzeros⟩ := reads_numbers "0.-1E-400"
  have hpiece : (⟨some .number, ".5e400".toList⟩ : Piece) ∈ Piece.lexemes "7.-.5e400".toList := by
    decide +kernel
  have htokens : (read {} "0.-1E-400").map tokens =
      .ok [.number 0, .operator .minus, .number 0] := by decide +kernel
  obtain ⟨f, hread, hf⟩ := map_eq_ok_iff.mp htokens
  have hzero := (hzeros {}).2 f hread 0 (hf ▸ List.mem_cons_self ..)
  exact ⟨hlexemes _ hpiece rfl, by decide +kernel, (hreads {}).1, f, hread, hf, hzero⟩

end Formula

end Worksheet
