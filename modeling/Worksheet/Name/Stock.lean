import Worksheet.Name

/-!
# Stock normalizers and validators

The rules that sheets are usually configured with, given as data so that a
configuration can name them.  Letters are folded in ASCII only: whatever else
stands in a name has no upper or lower form here.
-/

namespace Worksheet

/-- A named way of giving a name its stored form. -/
inductive Normalizer where
  | identity
  | upper
  | lower
  | withPrefix (text : String)
  | withSuffix (text : String)
  | without (text : String)
  | truncate (length : Nat)
  | constant (text : String)
  deriving Repr, DecidableEq, Inhabited

namespace Normalizer

/-- Drops every occurrence of `pattern`, found from left to right without
overlap.  `skip` counts the characters of an occurrence that are still to drop. -/
private def dropOccurrences (pattern : List Char) : (skip : Nat) → List Char → List Char
  | _, [] => []
  | skip + 1, _ :: rest => dropOccurrences pattern skip rest
  | 0, c :: rest =>
      if pattern.isPrefixOf (c :: rest) then dropOccurrences pattern (pattern.length - 1) rest
      else c :: dropOccurrences pattern 0 rest

/-- The text without any occurrence of `pattern`.  The empty pattern occurs
everywhere, and dropping it changes nothing. -/
def strip (pattern text : String) : String :=
  if pattern.isEmpty then text
  else String.ofList (dropOccurrences pattern.toList 0 text.toList)

/-- The stored form that a normalizer gives to a name. -/
def apply : Normalizer → String → String
  | identity, name => name
  | upper, name => name.map Char.toUpper
  | lower, name => name.map Char.toLower
  | withPrefix text, name => text ++ name
  | withSuffix text, name => name ++ text
  | without text, name => strip text name
  | truncate length, name => String.ofList (name.toList.take length)
  | constant text, _ => text

end Normalizer

/-- A named set of stored forms. -/
inductive Validator where
  | all
  | none
  | maxLength (length : Nat)
  | lettersThenDigits
  | startsWith (text : String)
  | differsFrom (text : String)
  | noLowerCase
  deriving Repr, DecidableEq, Inhabited

namespace Validator

/-- One or more letters followed by one or more digits, and nothing else. -/
def isLettersThenDigits (name : String) : Bool :=
  let chars := name.toList
  let digits := chars.dropWhile Char.isAlpha
  (chars.head?.any Char.isAlpha) && !digits.isEmpty && digits.all Char.isDigit

/-- Whether a stored form is in use.  Lengths count characters. -/
def accepts : Validator → String → Bool
  | all, _ => true
  | none, _ => false
  | maxLength length, name => name.length ≤ length
  | lettersThenDigits, name => isLettersThenDigits name
  | startsWith text, name => text.toList.isPrefixOf name.toList
  | differsFrom text, name => name != text
  | noLowerCase, name => name.toList.all fun c => !c.isLower

end Validator

/-- The rules made of a stock normalizer and a stock validator. -/
def NameRules.stock (normalizer : Normalizer) (validator : Validator) : NameRules where
  normalize := normalizer.apply
  validate := validator.accepts

end Worksheet
