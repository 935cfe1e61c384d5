/-!
# The order of bytes

Texts are ordered by their code points, and whoever sees only their bytes in UTF-8 finds
them in the same order (`Text.bytes_lt_bytes`).

What decides between two texts is the first character in which they differ, so it is enough
that the bytes of the smaller character come first whatever follows them (`Text.Precede`).
If one character has more bytes than the other, its first byte is greater already.  If both
have as many, the last six bits of their codes are compared only if the others agree, and
the last bytes stand for these bits (`Text.precede_continuing`).
-/

namespace Worksheet.Text

/-- The bytes of a text. -/
def bytes (text : String) : List UInt8 := text.toUTF8.data.toList

/-! ## Bytes that come first -/

/-- Whether some bytes come before others, whatever follows either of them. -/
def Precede (smaller greater : List UInt8) : Prop :=
  ∀ rest others, smaller ++ rest < greater ++ others

variable {smaller greater : List UInt8}

theorem Precede.append (hprecede : Precede smaller greater) (rest others : List UInt8) :
    Precede (smaller ++ rest) (greater ++ others) := by
  intro rest' others'
  rw [List.append_assoc, List.append_assoc]
  exact hprecede _ _

theorem Precede.append_left (hprecede : Precede smaller greater) (front : List UInt8) :
    Precede (front ++ smaller) (front ++ greater) := by
  intro rest others
  rw [List.append_assoc, List.append_assoc]
  exact List.append_left_lt (hprecede rest others)

/-! ## The bytes of a code point -/

/-- The first byte of a code point, with a mark that tells how many bytes follow. -/
def opening (mark code : Nat) : List UInt8 := [.ofNat (code + mark)]

/-- The byte for the last six bits of a code point, behind the bytes for the others. -/
def continuing (front : Nat → List UInt8) (code : Nat) : List UInt8 :=
  front (code / 64) ++ [.ofNat (code % 64 + 0x80)]

/-- The four ways to spell a code point.  The greater it is, the more bytes it takes. -/
inductive Spells : Nat → List UInt8 → Prop where
  | one {code : Nat} (hless : code < 0x80) : Spells code (opening 0 code)
  | two {code : Nat} (hmore : 0x80 ≤ code) (hless : code < 0x800) :
      Spells code (continuing (opening 0xc0) code)
  | three {code : Nat} (hmore : 0x800 ≤ code) (hless : code < 0x10000) :
      Spells code (continuing (continuing (opening 0xe0)) code)
  | four {code : Nat} (hmore : 0x10000 ≤ code) (hless : code < 0x200000) :
      Spells code (continuing (continuing (continuing (opening 0xf0))) code)

variable {front : Nat → List UInt8} {m n : Nat}

theorem precede_opening {mark greaterMark : Nat} (hlt : m + mark < n + greaterMark)
    (hbyte : n + greaterMark < 256) : Precede (opening mark m) (opening greaterMark n) := by
  intro rest others
  refine List.cons_lt_cons_iff.mpr (Or.inl ?_)
  rw [UInt8.lt_iff_toNat_lt, UInt8.toNat_ofNat', UInt8.toNat_ofNat']
  omega

theorem Precede.continuing_left (hprecede : Precede (front (m / 64)) greater) :
    Precede (continuing front m) greater := by
  have happend := hprecede.append [.ofNat (m % 64 + 0x80)] []
  rwa [List.append_nil] at happend

theorem Precede.continuing_right (hprecede : Precede smaller (front (n / 64))) :
    Precede smaller (continuing front n) := by
  have happend := hprecede.append [] [.ofNat (n % 64 + 0x80)]
  rwa [List.append_nil] at happend

/-- The last six bits decide only if the others are the same. -/
theorem precede_continuing (hlt : m < n)
    (hfront : m / 64 < n / 64 → Precede (front (m / 64)) (front (n / 64))) :
    Precede (continuing front m) (continuing front n) := by
  rcases Nat.lt_or_eq_of_le (Nat.div_le_div_right (c := 64) (Nat.le_of_lt hlt)) with hless | heq
  · exact (hfront hless).append _ _
  · have hlast : Precede (opening 0x80 (m % 64)) (opening 0x80 (n % 64)) :=
      precede_opening (by omega) (by omega)
    rw [continuing, continuing, heq]
    exact hlast.append_left _

/-- The bytes of code points are in the order of the code points. -/
theorem Spells.precede (hsmaller : Spells m smaller) (hgreater : Spells n greater)
    (hlt : m < n) : Precede smaller greater := by
  cases hsmaller with
  | one _ =>
      cases hgreater with
      | one _ => exact precede_opening (by omega) (by omega)
      | two _ _ =>
          have hopening : Precede (opening 0 m) (opening 0xc0 (n / 64)) :=
            precede_opening (by omega) (by omega)
          exact hopening.continuing_right
      | three _ _ =>
          have hopening : Precede (opening 0 m) (opening 0xe0 (n / 64 / 64)) :=
            precede_opening (by omega) (by omega)
          exact hopening.continuing_right.continuing_right
      | four _ _ =>
          have hopening : Precede (opening 0 m) (opening 0xf0 (n / 64 / 64 / 64)) :=
            precede_opening (by omega) (by omega)
          exact hopening.continuing_right.continuing_right.continuing_right
  | two _ _ =>
      cases hgreater with
      | one _ => omega
      | two _ _ => exact precede_continuing hlt fun _ => precede_opening (by omega) (by omega)
      | three _ _ =>
          have hopening : Precede (opening 0xc0 (m / 64)) (opening 0xe0 (n / 64 / 64)) :=
            precede_opening (by omega) (by omega)
          exact hopening.continuing_left.continuing_right.continuing_right
      | four _ _ =>
          have hopening : Precede (opening 0xc0 (m / 64)) (opening 0xf0 (n / 64 / 64 / 64)) :=
            precede_opening (by omega) (by omega)
          exact hopening.continuing_left.continuing_right.continuing_right.continuing_right
  | three _ _ =>
      cases hgreater with
      | one _ => omega
      | two _ _ => omega
      | three _ _ =>
          refine precede_continuing hlt fun hlt => precede_continuing hlt fun hlt => ?_
          exact precede_opening (by omega) (by omega)
      | four _ _ =>
          have hopening :
              Precede (opening 0xe0 (m / 64 / 64)) (opening 0xf0 (n / 64 / 64 / 64)) :=
            precede_opening (by omega) (by omega)
          have hfront := hopening.continuing_left.continuing_left
          exact hfront.continuing_right.continuing_right.continuing_right
  | four _ _ =>
      cases hgreater with
      | one _ => omega
      | two _ _ => omega
      | three _ _ => omega
      | four _ _ =>
          refine precede_continuing hlt fun hlt => precede_continuing hlt fun hlt =>
            precede_continuing hlt fun hlt => ?_
          exact precede_opening (by omega) (by omega)

theorem spells_utf8EncodeChar (c : Char) : Spells c.toNat (String.utf8EncodeChar c) := by
  have hvalid : c.val.toNat < 0x110000 := by
    rcases c.valid with hlow | ⟨-, hhigh⟩
    · exact Nat.lt_trans hlow (by decide)
    · exact hhigh
  change Spells c.val.toNat _
  -- The masks of the first bytes cut nothing off, because the code ends before they do.
  fun_cases String.utf8EncodeChar c with
  | case1 code hless => exact .one (by omega)
  | case2 code hmore hless =>
      have hfirst : code / 64 % 0x20 = code / 64 := by omega
      rw [hfirst]
      exact .two (by omega) (by omega)
  | case3 code _ hmore hless =>
      have hfirst : code / 4096 % 0x10 = code / 64 / 64 := by omega
      rw [hfirst]
      exact .three (by omega) (by omega)
  | case4 code _ _ hmore =>
      have hfirst : code / 262144 % 0x08 = code / 64 / 64 / 64 := by omega
      have hsecond : code / 4096 = code / 64 / 64 := by omega
      rw [hfirst, hsecond]
      exact .four (by omega) (by omega)

/-! ## The bytes of a text -/

theorem bytes_eq_flatMap (text : String) :
    bytes text = text.toList.flatMap String.utf8EncodeChar := by
  have hbytes : (String.ofList text.toList).toUTF8.data.toList = _ :=
    List.toList_data_toByteArray
  rwa [String.ofList_toList] at hbytes

theorem flatMap_utf8EncodeChar_lt {first second : List Char} (hlt : first < second) :
    first.flatMap String.utf8EncodeChar < second.flatMap String.utf8EncodeChar := by
  have hlex : List.Lex (· < ·) first second := hlt
  clear hlt
  induction hlex with
  | @nil c rest =>
      obtain ⟨byte, more, hbytes⟩ :=
        List.exists_cons_of_ne_nil (String.utf8EncodeChar_ne_nil (c := c))
      rw [List.flatMap_cons, hbytes]
      exact List.nil_lt_cons _ _
  | @rel c rest d others hlt =>
      rw [List.flatMap_cons, List.flatMap_cons]
      exact (spells_utf8EncodeChar c).precede (spells_utf8EncodeChar d) hlt _ _
  | cons _ ih =>
      rw [List.flatMap_cons, List.flatMap_cons]
      exact List.append_left_lt ih

/-- Texts are in the order of their bytes. -/
theorem bytes_lt_bytes {first second : String} (hlt : first < second) :
    bytes first < bytes second := by
  rw [bytes_eq_flatMap, bytes_eq_flatMap]
  exact flatMap_utf8EncodeChar_lt hlt

end Worksheet.Text
