import Worksheet.Proofs.Formula.Canonical

/-!
# When two formulas are the same

Formulas are compared by their tokens, numbers as numbers; they are hashed by their keys,
which hold the bits of their numbers; and they are shown by their text, which has its
numbers in decimal and nothing between its tokens.  Of two formulas that have been read,
under whatever rules, the three see the same differences, which are those of the tokens
themselves (`Formula.sameness_agrees`).

## Strategy

A token that has been read is plain: its number is finite and has no sign.  Numbers of
this kind are equal only bit for bit (`Number.beq_iff_eq`), which settles the comparison.
A key determines its token in any case, and a text determines the formula because it is a
source of it (`Formula.IsRead.readChars_chars`).
-/

namespace Worksheet

/-! ## Numbers -/

namespace Number

open Float.Model (UnpackedFloat)

theorem toBitVec_ne_packedZero {x : Float} (hsign : isSigned x = false) :
    x.toBits.toBitVec ≠ UnpackedFloat.packedZero .binary64 .negative := by
  intro hzero
  have hbits : x.toBits = 0x8000000000000000 := UInt64.toBitVec_inj.mp (hzero.trans (by decide))
  simp only [isSigned, hbits] at hsign
  exact absurd hsign (by decide)

/-- Finite numbers without a sign are equal only if they are the same double.  With a sign,
both zeros would be equal, and without being finite, a double need not equal itself. -/
theorem beq_iff_eq {x y : Float} (hfinite : isFinite x = true) (hx : isSigned x = false)
    (hy : isSigned y = false) : (x == y) = true ↔ x = y := by
  have hbeq := UnpackedFloat.unpack_beq_unpack_iff x.toModel.valid y.toModel.valid
  constructor
  · intro hequal
    obtain ⟨-, -, hbits | ⟨-, hzero⟩ | ⟨hzero, -⟩⟩ := hbeq.mp hequal
    · exact Float.toBits_inj.mp (UInt64.toBitVec_inj.mp hbits)
    · exact absurd hzero (toBitVec_ne_packedZero hy)
    · exact absurd hzero (toBitVec_ne_packedZero hx)
  · rintro rfl
    have hnumber := toBitVec_ne_packedNaN (of_decide_eq_true hfinite).le
    exact hbeq.mpr ⟨hnumber, hnumber, Or.inl rfl⟩

end Number

/-! ## Tokens -/

namespace Token

theorem beq_iff_eq {a b : Token} (ha : a.IsPlain) (hb : b.IsPlain) :
    (a == b) = true ↔ a = b := by
  change same a b = true ↔ a = b
  cases a with
  | number x =>
      cases b with
      | number y =>
          rw [Token.number.injEq]
          exact Number.beq_iff_eq ha.1 ha.2 hb.2
      | _ => simp [same]
  | _ => cases b <;> simp [same]

/-- A list of plain tokens is the same as another only if it is that list. -/
theorem beq_list_iff_eq {as bs : List Token} (has : ∀ a ∈ as, a.IsPlain)
    (hbs : ∀ b ∈ bs, b.IsPlain) : (as == bs) = true ↔ as = bs := by
  induction as generalizing bs with
  | nil => cases bs <;> simp
  | cons a as ih =>
      cases bs with
      | nil => simp
      | cons b bs =>
          obtain ⟨ha, has⟩ := List.forall_mem_cons.mp has
          obtain ⟨hb, hbs⟩ := List.forall_mem_cons.mp hbs
          rw [List.cons_beq_cons, Bool.and_eq_true, beq_iff_eq ha hb, ih has hbs,
            List.cons.injEq]

/-- A key says which token it is the key of. -/
theorem key_injective : Function.Injective key := by
  intro a b hkey
  cases a with
  | number x =>
      cases b with
      | number y => exact congrArg number (Float.toBits_inj.mp (Key.number.inj hkey))
      | _ => cases hkey
  | _ => cases b <;> simp_all [key]

end Token

/-! ## Formulas -/

namespace Formula

/-- Whether a formula is one that some source is read as, under some rules. -/
def IsRead (f : Formula) : Prop := ∃ rules source, read rules source = .ok f

namespace IsRead

variable {f g : Formula}

theorem isPlain (hf : f.IsRead) {token : Token} (htoken : token ∈ f.tokens) :
    token.IsPlain := by
  obtain ⟨rules, source, hread⟩ := hf
  exact isPlain_of_readChars hread htoken

theorem beq_iff_eq (hf : f.IsRead) (hg : g.IsRead) : (f == g) = true ↔ f = g := by
  change (f.tokens == g.tokens) = true ↔ f = g
  rw [Token.beq_list_iff_eq (fun _ => hf.isPlain) fun _ => hg.isPlain, Formula.ext_iff]

/-- The rules are not needed any more to read the text, because its names are stored forms. -/
theorem readChars_chars (hf : f.IsRead) : readChars {} f.chars = .ok f := by
  refine Formula.readChars_chars (fun _ => hf.isPlain) fun name hname => ?_
  have hlegal : (Token.name name).IsPlain := hf.isPlain (mem_names.mp hname)
  exact NameRules.resolve_without_rules hlegal

/-- A text says which formula it is the text of, although nothing stands between the tokens. -/
theorem text_eq_iff (hf : f.IsRead) (hg : g.IsRead) : f.text = g.text ↔ f = g := by
  constructor
  · intro htext
    have hchars : f.chars = g.chars := String.ofList_injective htext
    have hread := hf.readChars_chars
    rw [hchars, hg.readChars_chars] at hread
    exact (Except.ok.inj hread).symm
  · rintro rfl
    rfl

end IsRead

variable {f g h : Formula}

theorem key_eq_iff : f.key = g.key ↔ f = g := by
  rw [key, key, (List.map_injective_iff.mpr Token.key_injective).eq_iff, Formula.ext_iff]

/-- Of formulas that have been read, each under rules of its own, comparison, text and key
see the same differences, and no formula is the same as another one.  So comparison is an
equivalence on them, and formulas that compare equal have one hash. -/
theorem sameness_agrees (hf : f.IsRead) (hg : g.IsRead) (hh : h.IsRead) :
    [(f == g) = true, f.text = g.text, f.key = g.key, f = g].TFAE ∧
      (f == f) = true ∧ ((f == g) = true → (g == f) = true) ∧
      ((f == g) = true → (g == h) = true → (f == h) = true) ∧
      ((f == g) = true → hash f = hash g) := by
  have hfg := hf.beq_iff_eq hg
  refine ⟨?_, (hf.beq_iff_eq hf).mpr rfl, ?_, ?_, ?_⟩
  · tfae_have 1 ↔ 4 := hfg
    tfae_have 2 ↔ 4 := hf.text_eq_iff hg
    tfae_have 3 ↔ 4 := key_eq_iff
    tfae_finish
  · intro hequal
    exact (hg.beq_iff_eq hf).mpr (hfg.mp hequal).symm
  · intro hfgEqual hghEqual
    have hequal : f = h := (hfg.mp hfgEqual).trans ((hg.beq_iff_eq hh).mp hghEqual)
    exact (hf.beq_iff_eq hh).mpr hequal
  · intro hequal
    rw [hfg.mp hequal]

/-- Only one of the two is read under rules, and they spell their number differently. -/
theorem sameness_agrees_upper :
    ∃ f g, read (NameRules.stock .upper .all) "x1 + 2.0" = .ok f ∧
      read {} "X1+2.000" = .ok g ∧ f.text = "X1+2" ∧ (f == g) = true ∧ f.key = g.key ∧
        hash f = hash g := by
  have hfText : (read (NameRules.stock .upper .all) "x1 + 2.0").map text = .ok "X1+2" := by
    decide +kernel
  have hgText : (read {} "X1+2.000").map text = .ok "X1+2" := by
    decide +kernel
  obtain ⟨f, hfRead, hf⟩ := map_eq_ok_iff.mp hfText
  obtain ⟨g, hgRead, hg⟩ := map_eq_ok_iff.mp hgText
  obtain ⟨hagree, -, -, -, hhash⟩ :=
    sameness_agrees ⟨_, _, hfRead⟩ ⟨_, _, hgRead⟩ ⟨_, _, hgRead⟩
  have hequal : (f == g) = true := (hagree.out 1 0).mp (hf.trans hg.symm)
  exact ⟨f, g, hfRead, hgRead, hf, hequal, (hagree.out 0 2).mp hequal, hhash hequal⟩

end Formula

end Worksheet
