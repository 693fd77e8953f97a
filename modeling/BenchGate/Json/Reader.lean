import BenchGate.Json.Number

/-!
# Reading JSON

A text is read from left to right into a value, or refused at its first fault.

* `readString` and `readWord` read what has no parts; `Json/Number` reads numbers.
* `readElements` and `readFields` read the inside of an array or object, given a reader for the
  values in it. They count down the characters that are left, of which every round takes some.
* `readValue` is defined by the number of levels that may still open, at most `maxDepth`, so it
  needs no other measure.
* `parse` reads a whole text, in which only blanks may follow the value.
-/

namespace BenchGate.Json

/-- How many arrays and objects may be nested. -/
def maxDepth : Nat := 127

/-- A character that may stand between the parts of a text. -/
def isBlank (c : Char) : Bool := c = ' ' ∨ c = '\n' ∨ c = '\t' ∨ c = '\r'

/-- Drops the blanks at the start. -/
def skipBlanks (text : List Char) : List Char := text.dropWhile isBlank

/-! ## Words and strings -/

/-- The rest of a word of which the first letter was found. -/
def readWord (word : List Char) : Reader Unit := fun text =>
  match word, text with
  | [], rest => .ok ((), rest)
  | _ :: _, [] => .error .endInValue
  | w :: word, c :: rest => if w = c then readWord word rest else .error .brokenWord

/-- The value of a hexadecimal digit. -/
def hexDigit? (c : Char) : Option Nat :=
  if c.isDigit then some (c.toNat - '0'.toNat)
  else if 'a' ≤ c ∧ c ≤ 'f' then some (c.toNat - 'a'.toNat + 10)
  else if 'A' ≤ c ∧ c ≤ 'F' then some (c.toNat - 'A'.toNat + 10)
  else none

/--
Four hexadecimal digits. Fewer than four bytes before the end of the text are an unfinished string
rather than a bad escape.
-/
def readHex : Reader Nat
  | a :: b :: c :: d :: rest =>
    match hexDigit? a, hexDigit? b, hexDigit? c, hexDigit? d with
    | some a, some b, some c, some d => .ok (((a * 16 + b) * 16 + c) * 16 + d, rest)
    | _, _, _, _ => .error .badEscape
  | text =>
    let bytes := text.foldl (fun size c => size + c.utf8Size) 0
    .error (if bytes < 4 then .endInString else .badEscape)

/-- A code unit that begins a surrogate pair. -/
def isLeading (unit : Nat) : Bool := 0xD800 ≤ unit ∧ unit ≤ 0xDBFF

/-- A code unit that ends a surrogate pair. -/
def isTrailing (unit : Nat) : Bool := 0xDC00 ≤ unit ∧ unit ≤ 0xDFFF

/-- The character of one escaped code unit or of two that form a pair, after `\u`. -/
def readUnits : Reader Char := fun text => do
  let (unit, rest) ← readHex text
  if isTrailing unit then .error .loneSurrogate
  else if ¬ isLeading unit then .ok (Char.ofNat unit, rest)
  else match rest with
    | [] => .error .endInString
    | ['\\'] => .error .endInString
    | '\\' :: 'u' :: rest => do
      let (second, rest) ← readHex rest
      if isTrailing second then
        .ok (Char.ofNat ((unit - 0xD800) * 0x400 + (second - 0xDC00) + 0x10000), rest)
      else .error .loneSurrogate
    | _ => .error .brokenPair

/-- The character of an escape, after the backslash. -/
def readEscape : Reader Char
  | [] => .error .endInString
  | '"' :: rest => .ok ('"', rest)
  | '\\' :: rest => .ok ('\\', rest)
  | '/' :: rest => .ok ('/', rest)
  | 'b' :: rest => .ok ('\x08', rest)
  | 'f' :: rest => .ok ('\x0c', rest)
  | 'n' :: rest => .ok ('\n', rest)
  | 'r' :: rest => .ok ('\r', rest)
  | 't' :: rest => .ok ('\t', rest)
  | 'u' :: rest => readUnits rest
  | _ => .error .badEscape

/-- The characters up to the closing quote. At most `fuel` of them are left to read. -/
def readChars : Nat → List Char → Reader (List Char)
  | _, _, [] => .error .endInString
  | 0, _, _ => .error .endInString
  | fuel + 1, done, c :: rest =>
    if c = '"' then .ok (done.reverse, rest)
    else if c = '\\' then
      match readEscape rest with
      | .ok (escaped, rest) => readChars fuel (escaped :: done) rest
      | .error cause => .error cause
    else if c < ' ' then .error .controlCharacter
    else readChars fuel (c :: done) rest

/-- A string, after its opening quote. -/
def readString : Reader String := fun text => do
  let (chars, rest) ← readChars text.length [] text
  return (String.ofList chars, rest)

/-! ## Arrays and objects -/

/-- What follows an element: another one, or the end of the array. -/
inductive Next where
  | another
  | done

/-- What separates an element from the next one or from the end of the array. -/
def readElementSeparator : Reader Next := fun text =>
  match skipBlanks text with
  | [] => .error .endInArray
  | ']' :: rest => .ok (.done, rest)
  | ',' :: rest =>
    match skipBlanks rest with
    | [] => .error .endInValue
    | ']' :: _ => .error .trailingComma
    | rest => .ok (.another, rest)
  | _ => .error .elementSeparatorDue

/-- What separates a field from the next one or from the end of the object. -/
def readFieldSeparator : Reader Next := fun text =>
  match skipBlanks text with
  | [] => .error .endInObject
  | '}' :: rest => .ok (.done, rest)
  | ',' :: rest =>
    match skipBlanks rest with
    | [] => .error .endInValue
    | '}' :: _ => .error .trailingComma
    | '"' :: rest => .ok (.another, '"' :: rest)
    | _ => .error .nameDue
  | _ => .error .fieldSeparatorDue

/-- The name of a field, from its opening quote to before the colon. -/
def readName : Reader String
  | '"' :: rest => readString rest
  | _ => .error .nameDue

/-- The colon between the name of a field and its value. -/
def readColon : Reader Unit := fun text =>
  match skipBlanks text with
  | [] => .error .endInObject
  | ':' :: rest => .ok ((), rest)
  | _ => .error .colonDue

/-- The elements of an array from the first one on. At most `fuel` characters are left to read. -/
def readElements (element : Reader Json) : Nat → List Json → Reader (List Json)
  | 0, _, _ => .error .endInArray
  | fuel + 1, done, text => do
    let (value, rest) ← element text
    match ← readElementSeparator rest with
    | (.done, rest) => return ((value :: done).reverse, rest)
    | (.another, rest) => readElements element fuel (value :: done) rest

/-- The fields of an object from the first one on. At most `fuel` characters are left to read. -/
def readFields (element : Reader Json) : Nat → List (String × Json) → Reader (List (String × Json))
  | 0, _, _ => .error .endInObject
  | fuel + 1, done, text => do
    let (name, rest) ← readName text
    let ((), rest) ← readColon rest
    let (value, rest) ← element rest
    match ← readFieldSeparator rest with
    | (.done, rest) => return (((name, value) :: done).reverse, rest)
    | (.another, rest) => readFields element fuel ((name, value) :: done) rest

/-- An array, after its opening bracket. -/
def readArray (element : Reader Json) : Reader Json := fun text =>
  match skipBlanks text with
  | [] => .error .endInArray
  | ']' :: rest => .ok (.array [], rest)
  | rest => do
    let (elements, rest) ← readElements element rest.length [] rest
    return (.array elements, rest)

/-- An object, after its opening brace. -/
def readObject (element : Reader Json) : Reader Json := fun text =>
  match skipBlanks text with
  | [] => .error .endInObject
  | '}' :: rest => .ok (.object [], rest)
  | rest => do
    let (fields, rest) ← readFields element rest.length [] rest
    return (.object fields, rest)

/-! ## Values -/

/-- A value whose parts are read by `element`. -/
def readValueWith (element : Reader Json) : Reader Json := fun text =>
  match skipBlanks text with
  | [] => .error .endInValue
  | 'n' :: rest => do
    let ((), rest) ← readWord ['u', 'l', 'l'] rest
    return (.null, rest)
  | 't' :: rest => do
    let ((), rest) ← readWord ['r', 'u', 'e'] rest
    return (.bool true, rest)
  | 'f' :: rest => do
    let ((), rest) ← readWord ['a', 'l', 's', 'e'] rest
    return (.bool false, rest)
  | '"' :: rest => do
    let (s, rest) ← readString rest
    return (.string s, rest)
  | '[' :: rest => readArray element rest
  | '{' :: rest => readObject element rest
  | c :: rest =>
    if c = '-' ∨ c.isDigit then do
      let (n, rest) ← readNumber (c :: rest)
      return (.number n, rest)
    else .error .valueDue

/-- Refuses a value that opens one level too many, and nothing else. -/
def refuseNesting (value : Reader Json) : Reader Json := fun text =>
  match skipBlanks text with
  | '[' :: _ => .error .tooDeep
  | '{' :: _ => .error .tooDeep
  | _ => value text

/-- A value in which at most `depth` levels open. -/
def readValue : Nat → Reader Json
  | 0 => refuseNesting (readValueWith fun _ => .error .tooDeep)
  | depth + 1 => readValueWith (readValue depth)

/-- Nothing but blanks may follow a whole document. -/
def finish {α : Type} : α × List Char → Except JsonError α
  | (value, rest) => if (skipBlanks rest).isEmpty then .ok value else .error .trailingText

/-- The value that a text writes. -/
def parse (text : String) : Except JsonError Json := readValue maxDepth text.toList >>= finish

end BenchGate.Json
