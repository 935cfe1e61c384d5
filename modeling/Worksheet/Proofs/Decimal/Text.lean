import Worksheet.Decimal

/-!
# The text of a decimal

The text of a decimal is digits, at least one before a point and, if there is a point, at
least one behind it (`Decimal.chars_cases`).  It reads back to the same decimal, or, if
that had zeros in its exponent, to the whole number that it is (`Decimal.read?_chars`).
-/

namespace Worksheet.Decimal

/-- The decimal with a positive exponent written out in digits. -/
def writtenOut (d : Decimal) : Decimal := if 0 ≤ d.exponent then ⟨d.numerator, 0⟩ else d

/-! ## Runs of digits -/

/-- Whether a text is one digit or more. -/
def IsDigits (text : List Char) : Prop := text ≠ [] ∧ ∀ c ∈ text, c.isDigit = true

theorem IsDigits.append {first second : List Char} (hfirst : IsDigits first)
    (hsecond : IsDigits second) : IsDigits (first ++ second) :=
  ⟨List.append_ne_nil_of_left_ne_nil hfirst.1 second, fun c hc =>
    (List.mem_append.mp hc).elim (hfirst.2 c) (hsecond.2 c)⟩

theorem isDigits_toDigits (n : Nat) : IsDigits (Nat.toDigits 10 n) :=
  ⟨Nat.toDigits_ne_nil, fun _ hc => Nat.isDigit_of_mem_toDigits (by decide) (by decide) hc⟩

theorem isDigits_paddedDigits (width n : Nat) : IsDigits (paddedDigits width n) := by
  obtain ⟨hne, hdigits⟩ := isDigits_toDigits n
  refine ⟨fun hnil => hne (List.append_eq_nil_iff.mp hnil).2, fun c hc => ?_⟩
  rcases List.mem_append.mp hc with hzero | hc
  · rw [List.eq_of_mem_replicate hzero]
    rfl
  · exact hdigits c hc

theorem length_paddedDigits {width n : Nat} (hwidth : 0 < width) (hn : n < Nat.pow 10 width) :
    (paddedDigits width n).length = width := by
  have hlength := (Nat.length_toDigits_le_iff (b := 10) (by decide) hwidth).mpr hn
  simp only [paddedDigits, List.length_append, List.length_replicate]
  omega

theorem ofDigitChars_eq (digits : List Char) (first : Nat) :
    Nat.ofDigitChars 10 digits first = Nat.pow 10 digits.length * first + ofDigits digits := by
  induction digits generalizing first with
  | nil => simp [ofDigits]
  | cons c digits ih =>
      rw [ofDigits, Nat.ofDigitChars_cons, Nat.ofDigitChars_cons, ih, ih (10 * 0 + _)]
      have hpow : Nat.pow 10 (c :: digits).length = Nat.pow 10 digits.length * 10 := rfl
      rw [hpow, Nat.mul_zero, Nat.zero_add, Nat.mul_add, Nat.mul_assoc, Nat.add_assoc]

theorem ofDigits_toDigits (n : Nat) : ofDigits (Nat.toDigits 10 n) = n :=
  Nat.ofDigitChars_ten_toDigits

theorem ofDigits_append_paddedDigits (whole : List Char) (width n : Nat) :
    ofDigits (whole ++ paddedDigits width n) =
      Nat.pow 10 (paddedDigits width n).length * ofDigits whole + n := by
  have hpadded : ofDigits (paddedDigits width n) = n := by
    rw [ofDigits, paddedDigits, Nat.ofDigitChars_append, Nat.ofDigitChars_replicate_zero,
      Nat.mul_zero]
    exact ofDigits_toDigits n
  rw [ofDigits, Nat.ofDigitChars_append, ofDigitChars_eq, hpadded]
  rfl

/-! ## Reading what has been written -/

/-- A text is a whole number in digits, or has a point and digits on both sides. -/
theorem chars_cases (d : Decimal) :
    (0 ≤ d.exponent ∧ d.chars = Nat.toDigits 10 d.numerator) ∨
      ∃ whole fraction, IsDigits whole ∧ IsDigits fraction ∧ d.chars = whole ++ '.' :: fraction ∧
        d.exponent < 0 ∧ (fraction.length : Int) = -d.exponent ∧
          ofDigits (whole ++ fraction) = d.digits := by
  unfold chars
  split
  · rename_i hexponent
    exact Or.inl ⟨hexponent, rfl⟩
  · rename_i hexponent
    have hwidth : 0 < (-d.exponent).toNat := by omega
    have hlength : (paddedDigits (-d.exponent).toNat (d.digits % d.denominator)).length =
        (-d.exponent).toNat := length_paddedDigits hwidth (Nat.mod_lt d.digits d.denominator_pos)
    refine Or.inr ⟨_, _, isDigits_toDigits _, isDigits_paddedDigits _ _, rfl, by omega, ?_, ?_⟩
    · rw [hlength]
      omega
    · rw [ofDigits_append_paddedDigits, ofDigits_toDigits, hlength]
      exact Nat.div_add_mod d.digits d.denominator

/-- A run of digits ends where something else follows. -/
theorem takeWhile_isDigit {digits : List Char} (hdigits : ∀ c ∈ digits, c.isDigit = true)
    (rest : List Char) (hrest : rest.head?.all fun c => !c.isDigit) :
    (digits ++ rest).takeWhile Char.isDigit = digits ∧
      (digits ++ rest).dropWhile Char.isDigit = rest := by
  rw [List.takeWhile_append_of_pos hdigits, List.dropWhile_append_of_pos hdigits]
  cases rest with
  | nil => simp
  | cons c rest =>
      have hc : ¬ c.isDigit = true := by simpa using hrest
      simp [hc]

theorem read?_digits {text : List Char} (htext : IsDigits text) :
    read? text = some ⟨ofDigits text, 0⟩ := by
  obtain ⟨htake, hdrop⟩ := takeWhile_isDigit htext.2 [] rfl
  rw [List.append_nil] at htake hdrop
  simp [read?, htake, hdrop, htext.1, readExponent?]

theorem read?_point {whole fraction : List Char} (hwhole : IsDigits whole)
    (hfraction : IsDigits fraction) :
    read? (whole ++ '.' :: fraction) = some ⟨ofDigits (whole ++ fraction), -fraction.length⟩ := by
  obtain ⟨htake, hdrop⟩ := takeWhile_isDigit hwhole.2 ('.' :: fraction) rfl
  obtain ⟨htail, hend⟩ := takeWhile_isDigit hfraction.2 [] rfl
  rw [List.append_nil] at htail hend
  simp [read?, htake, hdrop, htail, hend, hwhole.1, readExponent?]

/-- The text of a decimal reads back. -/
theorem read?_chars (d : Decimal) : read? d.chars = some d.writtenOut := by
  unfold writtenOut
  rcases d.chars_cases with ⟨hexponent, hchars⟩ |
    ⟨whole, fraction, hwhole, hfraction, hchars, hexponent, hlength, hdigits⟩
  · rw [hchars, read?_digits (isDigits_toDigits _), ofDigits_toDigits, if_pos hexponent]
  · rw [hchars, read?_point hwhole hfraction, hdigits, hlength, Int.neg_neg,
      if_neg (Int.not_le.mpr hexponent)]

end Worksheet.Decimal
