/-!
# What can be wrong with a JSON text

A text is read from left to right and reading stops at the first fault, so one cause describes it.
-/

namespace BenchGate

/-- The cause for which a JSON text was refused. -/
inductive JsonError where
  /-- The text ends inside an array. -/
  | endInArray
  /-- The text ends inside an object, before a value was due. -/
  | endInObject
  /-- The text ends inside a string. -/
  | endInString
  /-- The text ends where a value was due, or within a number or a word. -/
  | endInValue
  /-- The name of a field is not followed by a colon. -/
  | colonDue
  /-- An element is followed by neither a comma nor the closing bracket. -/
  | elementSeparatorDue
  /-- A field is followed by neither a comma nor the closing brace. -/
  | fieldSeparatorDue
  /-- A word that begins like `null`, `true` or `false` goes on differently. -/
  | brokenWord
  /-- No value begins with this character. -/
  | valueDue
  /-- A backslash is followed by no known escape. -/
  | badEscape
  /-- A number breaks the grammar. -/
  | badNumber
  /-- A number is too large for binary64. -/
  | numberOutOfRange
  /-- A character below the space stands unescaped in a string. -/
  | controlCharacter
  /-- Something other than a string stands for the name of a field. -/
  | nameDue
  /-- An escaped half of a surrogate pair stands in the wrong place. -/
  | loneSurrogate
  /-- The first half of an escaped surrogate pair is followed by no escape. -/
  | brokenPair
  /-- A comma is followed by the closing bracket or brace. -/
  | trailingComma
  /-- The value is followed by more text. -/
  | trailingText
  /-- Arrays and objects are nested too deeply. -/
  | tooDeep
  deriving DecidableEq

/-- The wording of a cause. -/
def JsonError.message : JsonError → String
  | endInArray => "EOF while parsing a list"
  | endInObject => "EOF while parsing an object"
  | endInString => "EOF while parsing a string"
  | endInValue => "EOF while parsing a value"
  | colonDue => "expected `:`"
  | elementSeparatorDue => "expected `,` or `]`"
  | fieldSeparatorDue => "expected `,` or `\x7d`"
  | brokenWord => "expected ident"
  | valueDue => "expected value"
  | badEscape => "invalid escape"
  | badNumber => "invalid number"
  | numberOutOfRange => "number out of range"
  | controlCharacter => "control character (\\u0000-\\u001F) found while parsing a string"
  | nameDue => "key must be a string"
  | loneSurrogate => "lone leading surrogate in hex escape"
  | brokenPair => "unexpected end of hex escape"
  | trailingComma => "trailing comma"
  | trailingText => "trailing characters"
  | tooDeep => "recursion limit exceeded"

end BenchGate
