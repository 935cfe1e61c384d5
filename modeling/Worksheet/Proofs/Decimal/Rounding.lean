import Mathlib.Algebra.Order.Field.Power
import Mathlib.Data.Rat.Cast.Order
import Mathlib.Tactic.Positivity
import Worksheet.Decimal.Shortest
import Worksheet.Proofs.Decimal.Text

/-!
# Doubles are rounded to themselves

A quotient that is the value of a finite pattern is rounded to that pattern
(`Binary64.nearest_eq_of_value`).  So the exact decimal of a pattern reads back, and with
it the shortest decimal, which is one that has been seen to read back or else the exact
one (`Decimal.nearest_shortest`).

## Strategy

The value of a pattern is its mantissa scaled by a power of two.  Rounding looks for the
weight of the last mantissa bit by the leading bit of the quotient, and that is the scale
of the pattern: either the mantissa has its leading bit, or the scale is the least there
is.  In units of that weight the quotient is the mantissa, and nothing is rounded.
-/

namespace Worksheet

namespace Binary64

/-! ## The leading bit -/

/-- A power of two as a quotient of naturals. -/
theorem two_zpow_eq (exponent : Int) :
    (2 : ℚ) ^ exponent =
      (Nat.pow 2 exponent.toNat : Nat) / (Nat.pow 2 (-exponent).toNat : Nat) := by
  have hparts : exponent = (exponent.toNat : Int) - ((-exponent).toNat : Int) := by omega
  conv_lhs => rw [hparts, zpow_sub₀ (by norm_num), zpow_natCast, zpow_natCast]
  push_cast [Nat.pow_eq]
  rfl

/-- The comparison by which `floorLog2` decides, as one of quotients. -/
theorem mul_pow_le_iff {num den : Nat} (hden : 0 < den) (exponent : Int) :
    den * Nat.pow 2 exponent.toNat ≤ num * Nat.pow 2 (-exponent).toNat ↔
      (2 : ℚ) ^ exponent ≤ num / den := by
  have hpow : 0 < Nat.pow 2 (-exponent).toNat := Nat.pow_pos (by decide)
  rw [two_zpow_eq, div_le_div_iff₀ (by exact_mod_cast hpow) (by exact_mod_cast hden),
    mul_comm den]
  exact_mod_cast Iff.rfl

theorem log2_bounds {n : Nat} (hn : 0 < n) :
    (2 : ℚ) ^ (n.log2 : Int) ≤ n ∧ (n : ℚ) < 2 ^ ((n.log2 : Int) + 1) := by
  have hlower := Nat.log2_self_le hn.ne'
  have hupper := Nat.lt_log2_self (n := n)
  constructor
  · rw [zpow_natCast]
    exact_mod_cast hlower
  · have hcast : ((n.log2 : Int) + 1) = ((n.log2 + 1 : Nat) : Int) := by push_cast; rfl
    rw [hcast, zpow_natCast]
    exact_mod_cast hupper

/-- The exponent between whose powers of two a quotient lies is its `floorLog2`. -/
theorem floorLog2_eq {num den : Nat} (hnum : 0 < num) (hden : 0 < den) {exponent : Int}
    (hlower : (2 : ℚ) ^ exponent ≤ num / den) (hupper : (num : ℚ) / den < 2 ^ (exponent + 1)) :
    floorLog2 num den = exponent := by
  obtain ⟨hnumLower, hnumUpper⟩ := log2_bounds hnum
  obtain ⟨hdenLower, hdenUpper⟩ := log2_bounds hden
  have hden' : (0 : ℚ) < den := by exact_mod_cast hden
  have htwo : (1 : ℚ) < 2 := by norm_num
  -- The logarithms of both parts leave two exponents to choose from.
  have hbelow : (2 : ℚ) ^ ((num.log2 : Int) - den.log2 - 1) < num / den := by
    rw [lt_div_iff₀ hden']
    calc (2 : ℚ) ^ ((num.log2 : Int) - den.log2 - 1) * den
        < 2 ^ ((num.log2 : Int) - den.log2 - 1) * 2 ^ ((den.log2 : Int) + 1) := by gcongr
      _ = 2 ^ (num.log2 : Int) := by
          rw [← zpow_add₀ (by norm_num)]
          congr 1
          omega
      _ ≤ num := hnumLower
  have habove : (num : ℚ) / den < 2 ^ ((num.log2 : Int) - den.log2 + 1) := by
    rw [div_lt_iff₀ hden']
    calc (num : ℚ) < 2 ^ ((num.log2 : Int) + 1) := hnumUpper
      _ = 2 ^ ((num.log2 : Int) - den.log2 + 1) * 2 ^ (den.log2 : Int) := by
          rw [← zpow_add₀ (by norm_num)]
          congr 1
          omega
      _ ≤ 2 ^ ((num.log2 : Int) - den.log2 + 1) * den := by gcongr
  have hle : exponent < (num.log2 : Int) - den.log2 + 1 :=
    (zpow_lt_zpow_iff_right₀ htwo).mp (hlower.trans_lt habove)
  have hge : (num.log2 : Int) - den.log2 - 1 < exponent + 1 :=
    (zpow_lt_zpow_iff_right₀ htwo).mp (hbelow.trans hupper)
  unfold floorLog2
  simp only [mul_pow_le_iff hden]
  split
  · rename_i hguess
    have := (zpow_lt_zpow_iff_right₀ htwo).mp (hguess.trans_lt hupper)
    omega
  · rename_i hguess
    have hne : exponent ≠ (num.log2 : Int) - den.log2 := fun heq => hguess (heq ▸ hlower)
    omega

/-! ## The parts of a pattern -/

theorem mantissa_pos {pattern : Nat} (hpattern : pattern ≠ 0) : 0 < mantissa pattern := by
  unfold mantissa leadingBit
  split <;> omega

theorem div_leadingBit_pos {pattern : Nat} (hlarge : ¬ pattern < leadingBit) :
    1 ≤ pattern / leadingBit := by
  rw [Nat.le_div_iff_mul_le (by decide)]
  omega

/-- The weight of the last mantissa bit is found from the leading bit. -/
theorem max_log2_mantissa {pattern : Nat} (hpattern : pattern ≠ 0) :
    max (((mantissa pattern).log2 : Int) + scale pattern - 52) (-1074) = scale pattern := by
  have hpos := mantissa_pos hpattern
  unfold mantissa scale at *
  by_cases hsmall : pattern < leadingBit
  · simp only [if_pos hsmall] at hpos ⊢
    have hlog : pattern.log2 < 52 := (Nat.log2_lt hpattern).mpr hsmall
    omega
  · simp only [if_neg hsmall] at hpos ⊢
    have hupper : pattern % leadingBit + leadingBit < 2 ^ 53 := by
      unfold leadingBit
      omega
    have hlower : 2 ^ 52 ≤ pattern % leadingBit + leadingBit := by
      unfold leadingBit
      omega
    have hlog : (pattern % leadingBit + leadingBit).log2 = 52 := by
      have := (Nat.log2_lt hpos.ne').mpr hupper
      have := (Nat.le_log2 hpos.ne').mpr hlower
      omega
    have hdiv := div_leadingBit_pos hsmall
    omega

/-- A finite pattern is put together from its parts. -/
theorem mantissa_add_scale {pattern : Nat} (hpattern : pattern < infinity) :
    min (mantissa pattern + (scale pattern + 1074).toNat * leadingBit) infinity = pattern := by
  unfold mantissa scale
  by_cases hsmall : pattern < leadingBit
  · simp only [if_pos hsmall]
    have hzero : ((-1074 : Int) + 1074).toNat = 0 := by decide
    rw [hzero]
    omega
  · simp only [if_neg hsmall]
    have hdiv := div_leadingBit_pos hsmall
    have hshift : ((pattern / leadingBit : Nat) - 1075 + 1074 : Int).toNat =
        pattern / leadingBit - 1 := by omega
    have hparts := Nat.mod_add_div pattern leadingBit
    have hcarry : leadingBit + (pattern / leadingBit - 1) * leadingBit =
        leadingBit * (pattern / leadingBit) := by
      rw [Nat.sub_mul, Nat.one_mul, Nat.mul_comm leadingBit]
      have := Nat.le_mul_of_pos_left leadingBit hdiv
      omega
    rw [hshift, Nat.add_assoc, hcarry, hparts]
    omega

/-! ## Rounding a value -/

theorem roundHalfEven_mul (whole den : Nat) (hden : 0 < den) :
    roundHalfEven (whole * den) den = whole := by
  simp [roundHalfEven, Nat.mul_div_cancel _ hden, hden]

/-- A quotient that is the value of a finite pattern is rounded to the pattern. -/
theorem nearest_eq_of_value {num den pattern : Nat} (hden : 0 < den)
    (hpattern : pattern < infinity) (hzero : pattern ≠ 0)
    (hvalue : num * denominator pattern = numerator pattern * den) :
    nearest num den = pattern := by
  have hmantissa := mantissa_pos hzero
  have hnum : 0 < num := by
    apply Nat.pos_of_ne_zero
    rintro rfl
    have hpos : 0 < numerator pattern * den :=
      Nat.mul_pos (Nat.mul_pos hmantissa (Nat.pow_pos (by decide))) hden
    omega
  have hquotient : (num : ℚ) / den = mantissa pattern * 2 ^ scale pattern := by
    have hpow : 0 < denominator pattern := Nat.pow_pos (by decide)
    rw [two_zpow_eq, ← mul_div_assoc,
      div_eq_div_iff (by exact_mod_cast hden.ne') (by exact_mod_cast hpow.ne')]
    exact_mod_cast hvalue
  have hunit : floorLog2 num den = (mantissa pattern).log2 + scale pattern := by
    obtain ⟨hlower, hupper⟩ := log2_bounds hmantissa
    apply floorLog2_eq hnum hden
    · rw [hquotient, zpow_add₀ (by norm_num)]
      gcongr
    · rw [hquotient, add_right_comm, zpow_add₀ (by norm_num)]
      gcongr
  have hscaled : num * Nat.pow 2 (-scale pattern).toNat =
      mantissa pattern * (den * Nat.pow 2 (scale pattern).toNat) := by
    calc num * Nat.pow 2 (-scale pattern).toNat
        = mantissa pattern * Nat.pow 2 (scale pattern).toNat * den := hvalue
      _ = _ := by rw [Nat.mul_assoc, Nat.mul_comm den]
  have hdenScaled : 0 < den * Nat.pow 2 (scale pattern).toNat :=
    Nat.mul_pos hden (Nat.pow_pos (by decide))
  rw [nearest, if_neg hnum.ne']
  simp only [hunit, max_log2_mantissa hzero, hscaled, roundHalfEven_mul _ _ hdenScaled]
  exact mantissa_add_scale hpattern

end Binary64

namespace Decimal

open Binary64 (infinity mantissa scale)

variable {pattern : Nat}

/-- Where the exponent alone decides nothing, a decimal is rounded as a quotient. -/
theorem nearest_mk {digits : Nat} {exponent : Int} (hdigits : digits ≠ 0)
    (hupper : exponent ≤ 400) (hlower : -400 ≤ (digits.log2 : Int) + 1 + exponent) :
    nearest ⟨digits, exponent⟩ =
      Binary64.nearest (digits * Nat.pow 10 exponent.toNat) (Nat.pow 10 (-exponent).toNat) := by
  rw [nearest, if_neg hdigits, if_neg (Int.not_lt.mpr hupper), if_neg (Int.not_lt.mpr hlower)]
  rfl

/-- A decimal is rounded to infinity, or to less. -/
theorem nearest_le_infinity (d : Decimal) : d.nearest ≤ infinity := by
  have hinfinity : 0 ≤ infinity := Nat.zero_le _
  unfold nearest Binary64.nearest
  split_ifs
  · exact hinfinity
  · exact le_rfl
  · exact hinfinity
  · exact hinfinity
  · exact min_le_right _ _

/-- To write a decimal out does not change what it is rounded to, unless that is
infinity. -/
theorem nearest_writtenOut {d : Decimal} (hfinite : d.nearest < infinity) :
    d.writtenOut.nearest = d.nearest := by
  obtain ⟨digits, exponent⟩ := d
  simp only [writtenOut, numerator]
  split
  · rename_i hexponent
    by_cases hdigits : digits = 0
    · simp [nearest, hdigits]
    · have hupper : exponent ≤ 400 := by
        by_contra hlarge
        rw [nearest, if_neg hdigits, if_pos (Int.not_le.mp hlarge)] at hfinite
        exact Nat.lt_irrefl _ hfinite
      have hpos : 0 < digits * Nat.pow 10 exponent.toNat :=
        Nat.mul_pos (Nat.pos_of_ne_zero hdigits) (Nat.pow_pos (by decide))
      have hone : (-exponent).toNat = 0 := by omega
      rw [nearest_mk hpos.ne' (by decide) (by omega), nearest_mk hdigits hupper (by omega), hone]
      simp
  · rfl

/-- The exact decimal of a pattern is rounded to the pattern. -/
theorem nearest_exact (hpattern : pattern < infinity) (hzero : pattern ≠ 0) :
    (exact pattern).nearest = pattern := by
  have hmantissa := Binary64.mantissa_pos hzero
  unfold exact
  by_cases hscale : 0 ≤ scale pattern
  · simp only [if_pos hscale]
    have hdigits : 0 < Binary64.numerator pattern :=
      Nat.mul_pos hmantissa (Nat.pow_pos (by decide))
    rw [nearest_mk hdigits.ne' (by decide) (by omega)]
    apply Binary64.nearest_eq_of_value (Nat.pow_pos (by decide)) hpattern hzero
    have hone : (-scale pattern).toNat = 0 := by omega
    simp [Binary64.denominator, hone]
  · simp only [if_neg hscale]
    have hdigits : 0 < mantissa pattern * Nat.pow 5 (-scale pattern).toNat :=
      Nat.mul_pos hmantissa (Nat.pow_pos (by decide))
    -- Each power of a tenth comes with a power of five, which has as many bits at least.
    have hbits : (-scale pattern).toNat ≤
        (mantissa pattern * Nat.pow 5 (-scale pattern).toNat).log2 := by
      rw [Nat.le_log2 hdigits.ne']
      calc 2 ^ (-scale pattern).toNat ≤ 5 ^ (-scale pattern).toNat :=
            Nat.pow_le_pow_left (by decide) _
        _ ≤ mantissa pattern * 5 ^ (-scale pattern).toNat := Nat.le_mul_of_pos_left _ hmantissa
    rw [nearest_mk hdigits.ne' (by omega) (by omega)]
    apply Binary64.nearest_eq_of_value (Nat.pow_pos (by decide)) hpattern hzero
    have hnone : (scale pattern).toNat = 0 := by omega
    have hten : 5 ^ (-scale pattern).toNat * 2 ^ (-scale pattern).toNat =
        10 ^ (-scale pattern).toNat := (Nat.mul_pow 5 2 _).symm
    simp only [Binary64.numerator, Binary64.denominator, hnone, Nat.pow_eq, pow_zero, mul_one,
      mul_assoc, hten]

theorem nearest_of_onGrid? {exponent : Int} {d : Decimal}
    (hgrid : onGrid? pattern exponent = some d) : d.nearest = pattern := by
  simp only [onGrid?] at hgrid
  split at hgrid
  · rename_i hlower hupper
    split at hgrid
    · cases hgrid
      exact beq_iff_eq.mp hlower
    · cases hgrid
      exact beq_iff_eq.mp hupper
  · rename_i hlower hupper
    cases hgrid
    exact beq_iff_eq.mp hlower
  · rename_i hlower hupper
    cases hgrid
    exact beq_iff_eq.mp hupper
  · cases hgrid

/-- The shortest decimal of a finite pattern is rounded to the pattern. -/
theorem nearest_shortest (hpattern : pattern < infinity) :
    (shortest pattern).nearest = pattern := by
  unfold shortest
  split
  · rename_i hzero
    rw [hzero]
    rfl
  · rename_i hzero
    simp only
    cases hsearch : (List.range 17).findSome? fun places : Nat =>
        onGrid? pattern (magnitude (Binary64.numerator pattern)
          (Binary64.denominator pattern) - 1 - places) with
    | none => exact nearest_exact hpattern hzero
    | some d =>
        obtain ⟨places, -, hgrid⟩ := List.exists_of_findSome?_eq_some hsearch
        exact nearest_of_onGrid? hgrid

end Decimal

end Worksheet
