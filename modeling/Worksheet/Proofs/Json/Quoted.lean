import Worksheet.Json.Value

/-!
# Quoted text reads back

Every text is read back from between its quotes, whatever characters it has
(`Json.scanQuoted?_escape`).  A character that is escaped by number is read as a 16-bit
unit, and as all these numbers are small none of the units is half of a pair.

`Token.Writes` says of a text that it is cut into some tokens wherever it stands, and so
texts can be put together piece by piece.
-/

namespace Worksheet.Json

/-! ## Between the quotes -/

/-- What a character is read as when it has been written between quotes. -/
def Part.ofChar (c : Char) : Part :=
  if escapeLetter? c = none ∧ c.toNat < 0x20 then .unit c.toNat else .char c

theorem unescape?_of_escapeLetter? {c letter : Char} (hletter : escapeLetter? c = some letter) :
    unescape? letter = some c ∧ letter ≠ 'u' := by
  unfold escapeLetter? at hletter
  split at hletter <;> cases hletter <;> decide

theorem hexUnit?_digitChar {code : Nat} (hcode : code < 0x20) :
    hexUnit? '0' '0' (Nat.digitChar (code / 16)) (Nat.digitChar (code % 16)) = some code := by
  have hall : ∀ n < 0x20,
      hexUnit? '0' '0' (Nat.digitChar (n / 16)) (Nat.digitChar (n % 16)) = some n := by decide
  exact hall code hcode

theorem scanParts?_escape (parts : List Part) (c : Char) (rest : List Char) :
    scanParts? parts (escape c ++ rest) = scanParts? (Part.ofChar c :: parts) rest := by
  cases hletter : escapeLetter? c with
  | some letter =>
      obtain ⟨hunescape, hunit⟩ := unescape?_of_escapeLetter? hletter
      simp [escape, Part.ofChar, hletter, scanParts?, hunescape, hunit]
  | none =>
      by_cases hcontrol : c.toNat < 0x20
      · simp [escape, Part.ofChar, hletter, hcontrol, scanParts?, hexUnit?_digitChar hcontrol]
      · have hquote : c ≠ '"' := by
          rintro rfl
          cases hletter
        have hbackslash : c ≠ '\\' := by
          rintro rfl
          cases hletter
        simp [escape, Part.ofChar, hletter, hcontrol, scanParts?, hbackslash]

theorem joinUnits?_unit {code : Nat} (hcode : code < 0x20) (text : List Char)
    (parts : List Part) :
    joinUnits? text (.unit code :: parts) = joinUnits? (Char.ofNat code :: text) parts := by
  have hhigh : isHighHalf code = false := by simp [isHighHalf]; omega
  have hlow : isLowHalf code = false := by simp [isLowHalf]; omega
  cases parts with
  | nil => simp [joinUnits?, hhigh, hlow]
  | cons part parts => cases part <;> simp [joinUnits?, hhigh, hlow]

theorem joinUnits?_map_ofChar (text chars : List Char) :
    joinUnits? text (chars.map Part.ofChar) = some (text.reverse ++ chars) := by
  induction chars generalizing text with
  | nil => simp [joinUnits?]
  | cons c chars ih =>
      have hnext := ih (c :: text)
      rw [List.reverse_cons, List.append_assoc, List.singleton_append] at hnext
      rw [List.map_cons, ← hnext, Part.ofChar]
      split
      · rename_i hunit
        rw [joinUnits?_unit hunit.2, Char.ofNat_toNat]
      · rw [joinUnits?]

theorem scanParts?_flatMap_escape (parts : List Part) (text rest : List Char) :
    scanParts? parts (text.flatMap escape ++ rest) =
      scanParts? ((text.map Part.ofChar).reverse ++ parts) rest := by
  induction text generalizing parts with
  | nil => rfl
  | cons c text ih =>
      rw [List.flatMap_cons, List.append_assoc, scanParts?_escape, ih, List.map_cons,
        List.reverse_cons, List.append_assoc, List.singleton_append]

/-- Every text is read back from between its quotes. -/
theorem scanQuoted?_escape (text rest : List Char) :
    scanQuoted? (text.flatMap escape ++ '"' :: rest) = some (some (String.ofList text), rest) := by
  have hjoin := joinUnits?_map_ofChar [] text
  rw [scanQuoted?, scanParts?_flatMap_escape, List.append_nil, scanParts?, List.reverse_reverse]
  simp [hjoin]

/-! ## Tokens in a row -/

namespace Token

/-- Whether a text is cut into some tokens, whatever stands around it. -/
def Writes (text : List Char) (tokens : List Token) : Prop :=
  ∀ before rest, scanFrom? before (text ++ rest) = scanFrom? (tokens.reverse ++ before) rest

theorem writes_nil : Writes [] [] := fun _ _ => rfl

theorem Writes.append {first second : List Char} {tokens others : List Token}
    (hfirst : Writes first tokens) (hsecond : Writes second others) :
    Writes (first ++ second) (tokens ++ others) := by
  intro before rest
  rw [List.append_assoc, hfirst, hsecond, List.reverse_append, List.append_assoc]

theorem writes_of_first? {c : Char} {text : List Char} {token : Token}
    (hfirst : ∀ rest, first? c (text ++ rest) = some (some token, rest)) :
    Writes (c :: text) [token] := by
  intro before rest
  rw [List.cons_append, scanFrom?]
  split
  · rename_i found _ heq
    rw [hfirst] at heq
    cases heq
    rfl
  · rename_i heq
    rw [hfirst] at heq
    cases heq
  · rename_i heq
    rw [hfirst] at heq
    cases heq

theorem writes_blank {c : Char} (hc : isBlank c = true) : Writes [c] [] := by
  intro before rest
  have hfirst : first? c rest = some (none, rest) := if_pos hc
  rw [List.singleton_append, scanFrom?]
  split
  · rename_i heq
    rw [hfirst] at heq
    cases heq
  · rename_i heq
    rw [hfirst] at heq
    cases heq
    rfl
  · rename_i heq
    rw [hfirst] at heq
    cases heq

theorem writes_char {c : Char} {token : Token} (htoken : ofChar? c = some token) :
    Writes [c] [token] := by
  have hblank : isBlank c = false := by
    unfold ofChar? at htoken
    split at htoken <;> first | rfl | cases htoken
  exact writes_of_first? fun rest => by simp [first?, hblank, htoken]

/-- A text between quotes is one token, which holds the text. -/
theorem writes_quote (text : List Char) : Writes (quote text) [.quoted (String.ofList text)] := by
  refine writes_of_first? fun rest => ?_
  have hquoted := scanQuoted?_escape text rest
  simp [first?, isBlank, ofChar?, hquoted]

theorem writes_blanks (text : List Char) (htext : text.all isBlank = true) : Writes text [] := by
  induction text with
  | nil => exact writes_nil
  | cons c text ih =>
      rw [List.all_cons, Bool.and_eq_true] at htext
      exact (writes_blank htext.1).append (ih htext.2)

/-- The name of a field with the colon behind it. -/
theorem writes_field (name : List Char) :
    Writes (quote name ++ [':', ' ']) [.quoted (String.ofList name), .colon] :=
  (writes_quote name).append ((writes_char rfl).append (writes_blank rfl))

theorem scan?_of_writes {text : List Char} {tokens : List Token} (hwrites : Writes text tokens) :
    scan? text = some tokens := by
  have hscan := hwrites [] []
  rw [List.append_nil, List.append_nil] at hscan
  rw [scan?, hscan, scanFrom?, List.reverse_reverse]

end Token

/-- A text between quotes is read as that text. -/
theorem Value.read?_quote (text : List Char) :
    Value.read? (quote text) = some (.text (String.ofList text)) := by
  rw [Value.read?, Token.scan?_of_writes (Token.writes_quote text)]
  rfl

end Worksheet.Json
