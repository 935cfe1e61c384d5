import Mathlib
import Worksheet.Number
import Worksheet.Proofs.Decimal.Rounding

/-!
# The text of a number

Every finite double is read back from its text, bit for bit and with its sign
(`Number.read?_text`).  The text is that of its shortest decimal, behind a minus if the
double is signed (`Number.chars_of_isFinite`).  A number that is read from a text without
a sign has no sign itself (`Number.isSigned_of_readChars?`).
-/

namespace Worksheet.Number

open Binary64 (infinity signBit)

/-! ## A double and its parts -/

/-- A bit pattern that is no stray form of the value without a number is kept by the
double made of it. -/
theorem toBits_ofBits {bits : UInt64}
    (hbits : @Float.Model.UnpackedFloat.isNaNBits Float.Model.Format.binary64 bits.toBitVec =
      false) :
    (Float.ofBits bits).toBits = bits := by
  have hpack := @Float.Model.UnpackedFloat.pack_unpack Float.Model.Format.binary64 bits.toBitVec
  rw [hbits] at hpack
  exact UInt64.toBitVec_inj.mp hpack

theorem toBits_ofBits_of_le {pattern : Nat} (hpattern : pattern ≤ infinity) :
    (Float.ofBits (UInt64.ofNat pattern)).toBits = UInt64.ofNat pattern := by
  have hlt : pattern < 2 ^ 64 := hpattern.trans_lt (by decide)
  have hbits : (UInt64.ofNat pattern).toBitVec.toNat = pattern := UInt64.toNat_ofNat_of_lt hlt
  apply toBits_ofBits
  simp only [Float.Model.UnpackedFloat.isNaNBits, Float.Model.UnpackedFloat.unpackExponent_def,
    Float.Model.UnpackedFloat.unpackMantissa_def, decide_eq_false_iff_not, not_and, not_not]
  intro hexponent
  -- All bits of the exponent are set for infinity, which has no bit of the mantissa, and for
  -- larger patterns only.
  have hlarge : pattern / 2 ^ 52 % 2 ^ 11 = 2 ^ 11 - 1 := by
    have := congrArg BitVec.toNat hexponent
    simpa [BitVec.extractLsb'_toNat, Nat.shiftRight_eq_div_pow, hbits] using this
  have heq : pattern = infinity := by
    unfold infinity at *
    omega
  subst heq
  decide

theorem toNat_toBits (x : Float) :
    x.toBits.toNat = if isSigned x then pattern x + signBit else pattern x := by
  have hlt : x.toBits.toNat < 2 ^ 64 := x.toBits.toNat_lt
  unfold isSigned pattern
  by_cases hsign : signBit ≤ x.toBits.toNat
  · simp only [hsign, decide_true, if_true]
    unfold signBit at *
    omega
  · simp only [hsign, decide_false, Bool.false_eq_true, if_false]
    exact (Nat.mod_eq_of_lt (Nat.not_le.mp hsign)).symm

/-- A double is made of its sign and its pattern. -/
theorem ofPattern_pattern (x : Float) : ofPattern (isSigned x) (pattern x) = x := by
  rw [ofPattern, ← toNat_toBits, UInt64.ofNat_toNat, Float.ofBits_toBits]

theorem pattern_ofPattern {pattern : Nat} (hpattern : pattern ≤ infinity) :
    Number.pattern (ofPattern false pattern) = pattern ∧
      isSigned (ofPattern false pattern) = false := by
  have hlt : pattern < signBit := hpattern.trans_lt (by decide)
  have hbits : (ofPattern false pattern).toBits.toNat = pattern := by
    simp only [ofPattern, Bool.false_eq_true, if_false]
    rw [toBits_ofBits_of_le hpattern]
    exact UInt64.toNat_ofNat_of_lt (hlt.trans (by decide))
  simp only [Number.pattern, isSigned, hbits, decide_eq_false_iff_not]
  exact ⟨Nat.mod_eq_of_lt hlt, Nat.not_le.mpr hlt⟩

/-- No pattern up to that of infinity is kept for the value that is no number. -/
theorem toBitVec_ne_packedNaN {x : Float} (hpattern : pattern x ≤ infinity) :
    x.toBits.toBitVec ≠ Float.Model.UnpackedFloat.packedNaN .binary64 := by
  intro hnan
  have hbits : x.toBits = 0x7ff8000000000000 := UInt64.toBitVec_inj.mp (hnan.trans (by decide))
  simp only [pattern, hbits] at hpattern
  exact absurd hpattern (by decide)

theorem isNaN_eq_false {x : Float} (hpattern : pattern x ≤ infinity) : x.isNaN = false := by
  have hnan := Float.Model.UnpackedFloat.isNaN_unpack_iff_of_valid x.toModel.valid
  exact Bool.eq_false_iff.mpr (mt hnan.mp (toBitVec_ne_packedNaN hpattern))

/-- A pattern without a sign is that of a number, or of infinity. -/
theorem isFinite_or_eq_infinity {pattern : Nat} (hpattern : pattern ≤ infinity) :
    isFinite (ofPattern false pattern) = true ∨
      ofPattern false pattern = ofPattern false infinity := by
  rcases hpattern.lt_or_eq with hlt | rfl
  · have hfinite : Number.pattern (ofPattern false pattern) < infinity := by
      rwa [(pattern_ofPattern hpattern).1]
    exact Or.inl (decide_eq_true hfinite)
  · exact Or.inr rfl

/-! ## Reading what has been written -/

theorem chars_of_isFinite {x : Float} (hfinite : isFinite x = true) :
    chars x = if isSigned x then '-' :: (Decimal.shortest (pattern x)).chars
      else (Decimal.shortest (pattern x)).chars := by
  have hpattern : pattern x < infinity := by simpa [isFinite] using hfinite
  unfold chars unsignedChars
  rw [if_neg (Nat.not_lt.mpr hpattern.le), if_pos hpattern]

/-- Whether a character opens digits, of which a point may be the first. -/
def OpensDigits (c : Char) : Prop := c.isDigit = true ∨ c = '.'

theorem OpensDigits.ne {c other : Char} (hc : OpensDigits c)
    (hother : other.isDigit = false ∧ other ≠ '.') : c ≠ other := by
  rintro rfl
  rcases hc with hdigit | hpoint
  · exact absurd hdigit (by simp [hother.1])
  · exact hother.2 hpoint

theorem OpensDigits.toLower_eq {c : Char} (hc : OpensDigits c) : c.toLower = c := by
  rcases hc with hdigit | rfl
  · refine dif_neg fun hupper => ?_
    simp only [Char.isDigit, Bool.and_eq_true, decide_eq_true_eq] at hdigit
    exact absurd (UInt32.le_trans hupper.1 hdigit.2) (by decide)
  · rfl

/-- What opens with a digit or a point is none of the words. -/
theorem readUnsigned?_cons {c : Char} (hc : OpensDigits c) (rest : List Char) :
    readUnsigned? (c :: rest) = (Decimal.read? (c :: rest)).map Decimal.nearest := by
  have hi : c ≠ 'i' := hc.ne (by decide)
  have hn : c ≠ 'n' := hc.ne (by decide)
  simp [readUnsigned?, hc.toLower_eq, hi, hn]

/-- What opens with a digit or a point has no sign. -/
theorem readChars?_cons {c : Char} (hc : OpensDigits c) (rest : List Char) :
    readChars? (c :: rest) = (readUnsigned? (c :: rest)).map (ofPattern false) := by
  have hminus : c ≠ '-' := hc.ne (by decide)
  have hplus : c ≠ '+' := hc.ne (by decide)
  simp [readChars?, hminus, hplus]

/-- A number that is read without a sign is positive, or the positive zero. -/
theorem isSigned_of_readChars? {c : Char} (hc : OpensDigits c) {rest : List Char} {x : Float}
    (hread : readChars? (c :: rest) = some x) : isSigned x = false := by
  rw [readChars?_cons hc, readUnsigned?_cons hc, Option.map_map] at hread
  obtain ⟨d, -, rfl⟩ := Option.map_eq_some_iff.mp hread
  exact (pattern_ofPattern d.nearest_le_infinity).2

theorem exists_cons_of_isDigits {text : List Char} (htext : Decimal.IsDigits text) :
    ∃ c rest, text = c :: rest ∧ OpensDigits c := by
  obtain ⟨hne, hdigits⟩ := htext
  cases text with
  | nil => exact absurd rfl hne
  | cons c rest => exact ⟨c, rest, rfl, Or.inl (hdigits c (List.mem_cons_self ..))⟩

/-- The text of a decimal opens with a digit. -/
theorem exists_cons_of_decimal (d : Decimal) : ∃ c rest, d.chars = c :: rest ∧ OpensDigits c := by
  rcases d.chars_cases with ⟨-, hchars⟩ | ⟨whole, fraction, hwhole, -, hchars, -⟩
  · rw [hchars]
    exact exists_cons_of_isDigits (Decimal.isDigits_toDigits _)
  · obtain ⟨c, rest, rfl, hc⟩ := exists_cons_of_isDigits hwhole
    exact ⟨c, rest ++ '.' :: fraction, hchars, hc⟩

theorem readUnsigned?_shortest {pattern : Nat} (hpattern : pattern < infinity) :
    readUnsigned? (Decimal.shortest pattern).chars = some pattern := by
  have hnearest := Decimal.nearest_shortest hpattern
  obtain ⟨c, rest, hchars, hc⟩ := exists_cons_of_decimal (Decimal.shortest pattern)
  rw [hchars, readUnsigned?_cons hc, ← hchars, Decimal.read?_chars, Option.map_some,
    Decimal.nearest_writtenOut (by rwa [hnearest]), hnearest]

/-- A finite double is read back from its text, its sign included. -/
theorem readChars?_chars {x : Float} (hfinite : isFinite x = true) :
    readChars? (chars x) = some x := by
  have hpattern : pattern x < infinity := by simpa [isFinite] using hfinite
  have hunsigned := readUnsigned?_shortest hpattern
  have hself := ofPattern_pattern x
  rw [chars_of_isFinite hfinite]
  cases hsign : isSigned x with
  | true =>
      rw [hsign] at hself
      simp [readChars?, hunsigned, hself]
  | false =>
      rw [hsign] at hself
      obtain ⟨c, rest, hchars, hc⟩ := exists_cons_of_decimal (Decimal.shortest (pattern x))
      rw [hchars] at hunsigned ⊢
      simp [readChars?_cons hc, hunsigned, hself]

theorem read?_text {x : Float} (hfinite : isFinite x = true) : read? (text x) = some x := by
  rw [read?, text, String.toList_ofList]
  exact readChars?_chars hfinite

/-- No number opens like a formula. -/
theorem readChars?_equals (rest : List Char) : readChars? ('=' :: rest) = none := by
  have hread : Decimal.read? ('=' :: rest) = none := by
    simp [Decimal.read?, Char.isDigit]
  simp [readChars?, readUnsigned?, Char.toLower, hread]

end Worksheet.Number
