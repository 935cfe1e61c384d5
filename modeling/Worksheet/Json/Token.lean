import Worksheet.Json.Quoted

/-!
# The tokens of JSON

`Token.scan?` cuts a text into the tokens of JSON, strictly: white space is the
space, the tab and the two line breaks, and numbers, words and quoted texts have
exactly the forms of the standard.

Numbers, truth values and the null value are all `scalar`.  Nothing that is read
here asks which of them it is.
-/

namespace Worksheet.Json

/-- A token of JSON.  A quoted text that cannot be text is `quoted none`. -/
inductive Token where
  | openObject
  | closeObject
  | openArray
  | closeArray
  | comma
  | colon
  | quoted (text : Option String)
  | scalar
  deriving Repr, DecidableEq, Inhabited

namespace Token

/-- Whether a character separates tokens and means nothing. -/
def isBlank (c : Char) : Bool := c == ' ' || c == '\n' || c == '\r' || c == '\t'

/-- The token that a character is by itself. -/
def ofChar? : Char → Option Token
  | '{' => some openObject
  | '}' => some closeObject
  | '[' => some openArray
  | ']' => some closeArray
  | ',' => some comma
  | ':' => some colon
  | _ => none

/-! ## Numbers and words -/

/-- What follows a run of digits, which may not be empty. -/
def afterDigits? : List Char → Option (List Char)
  | [] => none
  | c :: rest => if c.isDigit then some (rest.dropWhile Char.isDigit) else none

/-- What follows the whole part of a number: a zero, or digits that start with
another. -/
def afterWhole? : List Char → Option (List Char)
  | '0' :: rest => some rest
  | source => afterDigits? source

/-- What follows the fraction of a number, if it has one. -/
def afterFraction? : List Char → Option (List Char)
  | '.' :: rest => afterDigits? rest
  | source => some source

/-- What follows the exponent of a number, if it has one. -/
def afterExponent? : List Char → Option (List Char)
  | [] => some []
  | mark :: rest =>
      if mark == 'e' || mark == 'E' then
        match rest with
        | '+' :: digits => afterDigits? digits
        | '-' :: digits => afterDigits? digits
        | digits => afterDigits? digits
      else some (mark :: rest)

/-- What follows a number. -/
def afterNumber? (source : List Char) : Option (List Char) := do
  let unsigned := match source with
    | '-' :: rest => rest
    | _ => source
  afterExponent? (← afterFraction? (← afterWhole? unsigned))

/-- What follows a number, a truth value or the null value. -/
def afterScalar? : List Char → Option (List Char)
  | 't' :: 'r' :: 'u' :: 'e' :: rest => some rest
  | 'f' :: 'a' :: 'l' :: 's' :: 'e' :: rest => some rest
  | 'n' :: 'u' :: 'l' :: 'l' :: rest => some rest
  | source => afterNumber? source

theorem afterDigits?_length_lt {source rest : List Char} (h : afterDigits? source = some rest) :
    rest.length < source.length := by
  cases source with
  | nil => cases h
  | cons c tail =>
      simp only [afterDigits?] at h
      split at h
      · cases h
        have := (List.dropWhile_sublist Char.isDigit (l := tail)).length_le
        simp only [List.length_cons]
        omega
      · cases h

theorem afterWhole?_length_lt {source rest : List Char} (h : afterWhole? source = some rest) :
    rest.length < source.length := by
  unfold afterWhole? at h
  split at h
  · cases h
    simp
  · exact afterDigits?_length_lt h

theorem afterFraction?_length_le {source rest : List Char} (h : afterFraction? source = some rest) :
    rest.length ≤ source.length := by
  unfold afterFraction? at h
  split at h
  · have := afterDigits?_length_lt h
    simp only [List.length_cons]
    omega
  · cases h
    exact Nat.le_refl _

theorem afterExponent?_length_le {source rest : List Char} (h : afterExponent? source = some rest) :
    rest.length ≤ source.length := by
  unfold afterExponent? at h
  split at h
  · cases h
    exact Nat.le_refl _
  · split at h
    · split at h <;>
      · have := afterDigits?_length_lt h
        simp only [List.length_cons] at this ⊢
        omega
    · cases h
      exact Nat.le_refl _

theorem afterNumber?_length_lt {source rest : List Char} (h : afterNumber? source = some rest) :
    rest.length < source.length := by
  unfold afterNumber? at h
  obtain ⟨fraction, hfraction, h⟩ := Option.bind_eq_some_iff.mp h
  obtain ⟨exponent, hexponent, h⟩ := Option.bind_eq_some_iff.mp h
  have hwhole := afterWhole?_length_lt hfraction
  have hpoint := afterFraction?_length_le hexponent
  have hend := afterExponent?_length_le h
  split at hwhole <;> simp only [List.length_cons] at * <;> omega

theorem afterScalar?_length_lt {source rest : List Char} (h : afterScalar? source = some rest) :
    rest.length < source.length := by
  unfold afterScalar? at h
  split at h
  · cases h
    simp only [List.length_cons]
    omega
  · cases h
    simp only [List.length_cons]
    omega
  · cases h
    simp only [List.length_cons]
    omega
  · exact afterNumber?_length_lt h

/-! ## Cutting a text into tokens -/

/-- What the text that starts with a character holds first: white space or a token,
and what follows it. -/
def first? (c : Char) (rest : List Char) : Option (Option Token × List Char) :=
  if isBlank c then some (none, rest)
  else
    match ofChar? c with
    | some token => some (some token, rest)
    | none =>
        if c == '"' then (scanQuoted? rest).map fun (text, rest) => (some (quoted text), rest)
        else (afterScalar? (c :: rest)).map fun rest => (some scalar, rest)

theorem first?_length_le {c : Char} {source rest : List Char} {token : Option Token}
    (h : first? c source = some (token, rest)) : rest.length ≤ source.length := by
  unfold first? at h
  split at h
  · cases h
    exact Nat.le_refl _
  · split at h
    · cases h
      exact Nat.le_refl _
    · split at h
      · obtain ⟨⟨text, tail⟩, hquoted, heq⟩ := Option.map_eq_some_iff.mp h
        cases heq
        exact Nat.le_of_lt (scanQuoted?_length_lt hquoted)
      · obtain ⟨tail, hscalar, heq⟩ := Option.map_eq_some_iff.mp h
        cases heq
        have := afterScalar?_length_lt hscalar
        simp only [List.length_cons] at this
        omega

/-- The tokens of a text behind those already read, the latest of which comes
first. -/
def scanFrom? (tokens : List Token) : List Char → Option (List Token)
  | [] => some tokens.reverse
  | c :: source =>
      match _hfirst : first? c source with
      | some (some token, rest) => scanFrom? (token :: tokens) rest
      | some (none, rest) => scanFrom? tokens rest
      | none => none
termination_by source => source.length
decreasing_by
  all_goals
    have := first?_length_le ‹_›
    simp only [List.length_cons]
    omega

/-- The tokens of a text. -/
def scan? (source : List Char) : Option (List Token) := scanFrom? [] source

end Token

end Worksheet.Json
