import Worksheet.Json.Token

/-!
# JSON values

`Value.read?` builds the value that a text writes.  Values may be nested to any
depth: the containers that are still open are kept on a stack, and each token is
taken in by one step.

The fields of an object are kept as they are written, repetitions included.  It is
for the reader of an object to decide what a repeated field means.
-/

namespace Worksheet.Json

/-- A JSON value.  Quoted text that cannot be text is kept as `none`, for values and
for the names of fields. -/
inductive Value where
  | text (characters : Option String)
  | scalar
  | array (items : List Value)
  | object (fields : List (Option String × Value))

namespace Value

instance : Inhabited Value := ⟨scalar⟩

/-- A container that is still open, with what it holds so far, the latest first.  A
`field` is an object whose latest field still waits for its value. -/
inductive Layer where
  | array (items : List Value)
  | object (fields : List (Option String × Value))
  | field (fields : List (Option String × Value)) (name : Option String)

/-- What the next token has to be. -/
inductive Expected where
  | value
  | valueOrEnd
  | name
  | nameOrEnd
  | colon
  | commaOrEnd
  deriving Repr, DecidableEq, Inhabited

/-- What has been read: open containers and what has to come next, or a value. -/
inductive State where
  | within (layers : List Layer) (expected : Expected)
  | complete (value : Value)

instance : Inhabited State := ⟨.within [] .value⟩

/-- Hands a finished value to the container around it. -/
def place (value : Value) : List Layer → Option State
  | [] => some (.complete value)
  | .array items :: layers => some (.within (.array (value :: items) :: layers) .commaOrEnd)
  | .field fields name :: layers =>
      some (.within (.object ((name, value) :: fields) :: layers) .commaOrEnd)
  | .object _ :: _ => none

/-- Takes in the first token of a value. -/
def openValue (layers : List Layer) : Token → Option State
  | .quoted characters => place (text characters) layers
  | .scalar => place scalar layers
  | .openArray => some (.within (.array [] :: layers) .valueOrEnd)
  | .openObject => some (.within (.object [] :: layers) .nameOrEnd)
  | _ => none

/-- Takes in the name of a field. -/
def openField : List Layer → Token → Option State
  | .object fields :: layers, .quoted name => some (.within (.field fields name :: layers) .colon)
  | _, _ => none

/-- Takes in the end of the innermost container. -/
def close : List Layer → Token → Option State
  | .array items :: layers, .closeArray => place (array items.reverse) layers
  | .object fields :: layers, .closeObject => place (object fields.reverse) layers
  | _, _ => none

/-- Takes in one token. -/
def step : State → Token → Option State
  | .complete _, _ => none
  | .within layers .value, token => openValue layers token
  | .within layers .valueOrEnd, token =>
      if token = .closeArray then close layers token else openValue layers token
  | .within layers .name, token => openField layers token
  | .within layers .nameOrEnd, token =>
      if token = .closeObject then close layers token else openField layers token
  | .within layers .colon, token =>
      if token = .colon then some (.within layers .value) else none
  | .within layers .commaOrEnd, token =>
      if token = .comma then
        match layers with
        | .array _ :: _ => some (.within layers .value)
        | .object _ :: _ => some (.within layers .name)
        | _ => none
      else close layers token

/-- The value that a list of tokens writes. -/
def ofTokens? (tokens : List Token) : Option Value :=
  match tokens.foldlM step (.within [] .value) with
  | some (.complete value) => some value
  | _ => none

/-- The value that a whole text writes. -/
def read? (source : List Char) : Option Value := (Token.scan? source).bind ofTokens?

/-! ## Looking into a value -/

/-- The text that a value is. -/
def text? : Value → Option String
  | text characters => characters
  | _ => none

/-- The values of the fields of one name, in the order in which they are written. -/
def fieldsNamed (name : String) (fields : List (Option String × Value)) : List Value :=
  fields.filterMap fun field => if field.1 = some name then some field.2 else none

/-- Whether the name of every field is text. -/
def areNamed (fields : List (Option String × Value)) : Bool :=
  fields.all fun field => field.1.isSome

end Value

end Worksheet.Json
