import BenchGate.Binary64.Text
import BenchGate.Json.Value

/-!
# Writing JSON

Reports are written with one element or field a line, two blanks further in than the bracket around
it; an empty array or object is just its brackets. In a string the quote, the backslash and the
characters below the space are escaped and all others stand for themselves. A number that is not
finite has no numeral and is written `null`.
-/

namespace BenchGate.Json

/-- A hexadecimal digit. -/
def hexDigit (n : Nat) : Char := Char.ofNat (if n < 10 then '0'.toNat + n else 'a'.toNat + (n - 10))

/-- A character as it stands in a string. -/
def escaped (c : Char) : List Char :=
  if c = '"' then ['\\', '"']
  else if c = '\\' then ['\\', '\\']
  else if c = '\x08' then ['\\', 'b']
  else if c = '\x0c' then ['\\', 'f']
  else if c = '\n' then ['\\', 'n']
  else if c = '\r' then ['\\', 'r']
  else if c = '\t' then ['\\', 't']
  else if c < ' ' then ['\\', 'u', '0', '0', hexDigit (c.toNat / 16), hexDigit (c.toNat % 16)]
  else [c]

/-- A string between its quotes. -/
def quoted (s : String) : List Char := '"' :: s.toList.flatMap escaped ++ ['"']

/-- A numeral. -/
def numeral : JsonNumber → List Char
  | .natural n => Nat.toDigits 10 n
  | .negative n => '-' :: Nat.toDigits 10 n
  | .binary x => x.numeral?.getD "null".toList

/-- The start of a line at a level of nesting. -/
def newline (level : Nat) : List Char := '\n' :: List.replicate (2 * level) ' '

mutual

/-- A value whose closing bracket stands at `level`. -/
def written (level : Nat) : Json → List Char
  | null => "null".toList
  | bool true => "true".toList
  | bool false => "false".toList
  | number n => numeral n
  | string s => quoted s
  | array [] => ['[', ']']
  | array (element :: elements) =>
    '[' :: newline (level + 1) ++ written (level + 1) element
      ++ writtenElements (level + 1) elements ++ newline level ++ [']']
  | object [] => ['{', '}']
  | object ((name, value) :: fields) =>
    '{' :: newline (level + 1) ++ quoted name ++ ':' :: ' ' :: written (level + 1) value
      ++ writtenFields (level + 1) fields ++ newline level ++ ['}']

/-- The elements after the first one. -/
def writtenElements (level : Nat) : List Json → List Char
  | [] => []
  | element :: elements =>
    ',' :: newline level ++ written level element ++ writtenElements level elements

/-- The fields after the first one. -/
def writtenFields (level : Nat) : List (String × Json) → List Char
  | [] => []
  | (name, value) :: fields =>
    ',' :: newline level ++ quoted name ++ ':' :: ' ' :: written level value
      ++ writtenFields level fields

end

/-- The text of a document. -/
def render (value : Json) : String := String.ofList (written 0 value)

end BenchGate.Json
