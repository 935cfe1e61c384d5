/-!
# Names of cells and variables

A name is a letter or an underscore followed by letters, digits and
underscores, all of them ASCII.  `Name.isLegal` decides this grammar for a whole
text, so neither a blank nor a line end before or after a name is forgiven.

On top of the grammar a sheet may install `NameRules`: a normalizer that gives
every name its stored form, and a validator that narrows the names in use.  The
two act in a fixed order.  The grammar and the validator both see the normal
form, so a normalizer may turn an illegal name into a legal one, and may not
smuggle an illegal one in (`NameRules.resolve_eq_some_iff`).
-/

namespace Worksheet

namespace Name

/-- The characters that open a name. -/
def isStart (c : Char) : Bool := c.isAlpha || c == '_'

/-- The characters that go on with a name. -/
def isPart (c : Char) : Bool := c.isAlphanum || c == '_'

/-- Whether the characters of a text, from first to last, spell a name. -/
def isLegalSpelling : List Char → Bool
  | [] => false
  | first :: rest => isStart first && rest.all isPart

/-- Whether the whole text is a name. -/
def isLegal (name : String) : Bool := isLegalSpelling name.toList

theorem isPart_of_isStart {c : Char} (hc : isStart c = true) : isPart c = true := by
  simp only [isStart, isPart, Char.isAlphanum, Bool.or_eq_true] at hc ⊢
  exact hc.imp Or.inl id

end Name

/-- What a sheet does to the names it is given.  `normalize` gives a name its
stored form, and `validate` says which stored forms are in use.  Without rules
every name is stored as it is given and every legal name is in use. -/
structure NameRules where
  normalize : String → String := id
  validate : String → Bool := fun _ => true

namespace NameRules

instance : Inhabited NameRules := ⟨{}⟩

/-- The stored form of a name, if that form is legal and in use. -/
def resolve (rules : NameRules) (name : String) : Option String :=
  let stored := rules.normalize name
  if Name.isLegal stored && rules.validate stored then some stored else none

/-- Whether a name may be used at all. -/
def accepts (rules : NameRules) (name : String) : Bool := (rules.resolve name).isSome

theorem resolve_eq_some_iff {rules : NameRules} {name stored : String} :
    rules.resolve name = some stored ↔
      rules.normalize name = stored ∧ Name.isLegal stored = true ∧
        rules.validate stored = true := by
  unfold resolve
  constructor
  · intro hresolve
    by_cases hcheck :
        (Name.isLegal (rules.normalize name) && rules.validate (rules.normalize name)) = true
    · simp only [hcheck, if_true, Option.some.injEq] at hresolve
      subst hresolve
      simpa using hcheck
    · simp [hcheck] at hresolve
  · rintro ⟨rfl, hlegal, hvalid⟩
    simp [hlegal, hvalid]

end NameRules

end Worksheet
