/-!
# Quoted text in JSON

`Json.quote` writes a text between quotes.  The quote, the backslash and the
control characters below the space are escaped, the common ones by a letter and
the others by their number; everything else stands for itself.

`Json.scanQuoted?` reads such a text after its opening quote.  It accepts every
escape, also of characters that `quote` leaves alone.  An escape by number stands
for a 16-bit unit, and a character beyond those is a pair of them.  Half of a pair
alone is well-formed JSON, but no text: `joinUnits?` has no result for it.
-/

namespace Worksheet.Json

/-! ## Writing -/

/-- The letter that escapes a character, if there is one. -/
def escapeLetter? : Char → Option Char
  | '"' => some '"'
  | '\\' => some '\\'
  | '\x08' => some 'b'
  | '\x0c' => some 'f'
  | '\n' => some 'n'
  | '\r' => some 'r'
  | '\t' => some 't'
  | _ => none

/-- A character as it stands between quotes. -/
def escape (c : Char) : List Char :=
  match escapeLetter? c with
  | some letter => ['\\', letter]
  | none =>
      if c.toNat < 0x20 then
        ['\\', 'u', '0', '0', Nat.digitChar (c.toNat / 16), Nat.digitChar (c.toNat % 16)]
      else [c]

/-- A text between quotes. -/
def quote (text : List Char) : List Char := '"' :: text.flatMap escape ++ ['"']

/-! ## Reading -/

/-- What stands between quotes: characters, and 16-bit units given by number. -/
inductive Part where
  | char (c : Char)
  | unit (code : Nat)
  deriving Repr, DecidableEq, Inhabited

/-- The character that a letter after a backslash stands for. -/
def unescape? : Char → Option Char
  | '"' => some '"'
  | '\\' => some '\\'
  | '/' => some '/'
  | 'b' => some '\x08'
  | 'f' => some '\x0c'
  | 'n' => some '\n'
  | 'r' => some '\r'
  | 't' => some '\t'
  | _ => none

/-- The value of a hexadecimal digit in either case. -/
def hexDigit? (c : Char) : Option Nat :=
  if c.isDigit then some (c.toNat - '0'.toNat)
  else if 'a' ≤ c ∧ c ≤ 'f' then some (c.toNat - 'a'.toNat + 10)
  else if 'A' ≤ c ∧ c ≤ 'F' then some (c.toNat - 'A'.toNat + 10)
  else none

/-- The value of four hexadecimal digits. -/
def hexUnit? (a b c d : Char) : Option Nat := do
  pure ((((← hexDigit? a) * 16 + (← hexDigit? b)) * 16 + (← hexDigit? c)) * 16 + (← hexDigit? d))

/-- The parts up to the closing quote, and the text behind it.  `parts` are those
already read, the latest first. -/
def scanParts? (parts : List Part) : List Char → Option (List Part × List Char)
  | [] => none
  | '"' :: rest => some (parts.reverse, rest)
  | '\\' :: 'u' :: a :: b :: c :: d :: rest =>
      match hexUnit? a b c d with
      | some code => scanParts? (.unit code :: parts) rest
      | none => none
  | '\\' :: letter :: rest =>
      match unescape? letter with
      | some c => scanParts? (.char c :: parts) rest
      | none => none
  | c :: rest => if c.toNat < 0x20 || c == '\\' then none else scanParts? (.char c :: parts) rest

/-- Whether a unit opens a pair. -/
def isHighHalf (code : Nat) : Bool := 0xd800 ≤ code && code < 0xdc00

/-- Whether a unit closes a pair. -/
def isLowHalf (code : Nat) : Bool := 0xdc00 ≤ code && code < 0xe000

/-- The character that a pair of units stands for. -/
def pairedChar (high low : Nat) : Char :=
  Char.ofNat (0x10000 + (high - 0xd800) * 0x400 + (low - 0xdc00))

/-- The text that some parts make, unless there is half of a pair alone among them.
`text` are the characters already read, the latest first. -/
def joinUnits? (text : List Char) : List Part → Option (List Char)
  | [] => some text.reverse
  | .char c :: rest => joinUnits? (c :: text) rest
  | .unit high :: .unit low :: rest =>
      if isHighHalf high && isLowHalf low then joinUnits? (pairedChar high low :: text) rest
      else if isHighHalf high || isLowHalf high then none
      else joinUnits? (Char.ofNat high :: text) (.unit low :: rest)
  | .unit code :: rest =>
      if isHighHalf code || isLowHalf code then none
      else joinUnits? (Char.ofNat code :: text) rest

/-- The text up to the closing quote, if the parts make one, and what is behind the
quote. -/
def scanQuoted? (source : List Char) : Option (Option String × List Char) :=
  (scanParts? [] source).map fun (parts, rest) => ((joinUnits? [] parts).map String.ofList, rest)

/-! ## Reading goes forward -/

theorem scanParts?_length_lt {parts found : List Part} {source rest : List Char}
    (hscan : scanParts? parts source = some (found, rest)) : rest.length < source.length := by
  fun_induction scanParts? parts source with
  | case1 => cases hscan
  | case2 parts tail =>
      cases hscan
      simp
  | case3 parts a b c d tail code hcode ih =>
      have := ih hscan
      simp only [List.length_cons]
      omega
  | case4 => cases hscan
  | case5 parts letter tail hletter c hc ih =>
      have := ih hscan
      simp only [List.length_cons]
      omega
  | case6 => cases hscan
  | case7 => cases hscan
  | case8 parts c tail hquote hunit hletter hplain ih =>
      have := ih hscan
      simp only [List.length_cons]
      omega

theorem scanQuoted?_length_lt {text : Option String} {source rest : List Char}
    (hscan : scanQuoted? source = some (text, rest)) : rest.length < source.length := by
  unfold scanQuoted? at hscan
  obtain ⟨⟨parts, tail⟩, hparts, heq⟩ := Option.map_eq_some_iff.mp hscan
  cases heq
  exact scanParts?_length_lt hparts

end Worksheet.Json
