import BenchGate.Binary64.Text
import BenchGate.Json.Reader
import BenchGate.Text.Quoted

/-!
# Decoding settings

Results are read leniently, settings are not: a text of settings is read straight into a record with
fixed fields, and anything unexpected stops the reading where it stands, before the text behind it
is looked at.

A record is written as an object, every field of which may be left out, or as an array of its fields
in order, the end of which may be left out.
-/

namespace BenchGate

/-- What is found in the place of a value of another type. -/
inductive FoundValue where
  | null
  | bool (b : Bool)
  | number (n : JsonNumber)
  | string (s : String)
  | array
  | object

/-- The words for what is found. -/
def FoundValue.description : FoundValue → String
  | null => "null"
  | bool b => s!"boolean `{b}`"
  | number (.natural n) => s!"integer `{n}`"
  | number (.negative n) => s!"integer `-{n}`"
  | number (.binary x) => "floating point `" ++ String.ofList (x.numeral?.getD []) ++ "`"
  | string s => "string " ++ quotedText s
  | array => "sequence"
  | object => "map"

/-- Why a text of settings was refused. -/
inductive DecodeError where
  /-- The text is no JSON. -/
  | malformed (cause : JsonError)
  | wrongType (found : FoundValue) (expected : String)
  /-- A count is negative. -/
  | negativeCount (n : Nat)
  | unknownField (name : String) (expected : List String)
  | duplicateField (name : String)

/-- A list of field names, as a message gives it. -/
def expectedNames : List String → String
  | [a, b] => s!"`{a}` or `{b}`"
  | names => "one of " ++ ", ".intercalate (names.map fun name => s!"`{name}`")

/-- The wording of an error. -/
def DecodeError.message : DecodeError → String
  | malformed cause => cause.message
  | wrongType found expected => s!"invalid type: {found.description}, expected {expected}"
  | negativeCount n => s!"invalid value: integer `-{n}`, expected u64"
  | unknownField name expected => s!"unknown field `{name}`, expected {expectedNames expected}"
  | duplicateField name => s!"duplicate field `{name}`"

/-- What reads a part of a text of settings. -/
abbrev Decoder (α : Type) := List Char → Except DecodeError (α × List Char)

namespace Decoder

open Json

/-- Reads a part of a text as it is read anywhere. -/
def lift {α : Type} (read : Reader α) : Decoder α := fun text =>
  match read text with
  | .ok result => .ok result
  | .error cause => .error (.malformed cause)

/-- Refuses the value at the start of a text for its type, after reading it unless it has parts. -/
def refuse {α : Type} (expected : String) : Decoder α := fun text =>
  let wrong (found : FoundValue) : Except DecodeError (α × List Char) :=
    .error (.wrongType found expected)
  match skipBlanks text with
  | '[' :: _ => wrong .array
  | '{' :: _ => wrong .object
  | rest => do
    let (value, _) ← lift (readValue 0) rest
    match value with
    | .null => wrong .null
    | .bool b => wrong (.bool b)
    | .number n => wrong (.number n)
    | .string s => wrong (.string s)
    | .array _ => wrong .array
    | .object _ => wrong .object

/-- A number, if one begins here. -/
def number? (text : List Char) : Option (Except DecodeError (JsonNumber × List Char)) :=
  match skipBlanks text with
  | c :: rest => if c = '-' ∨ c.isDigit then some (lift readNumber (c :: rest)) else none
  | [] => none

/-- An amount: any number. -/
def amount : Decoder Binary64 := fun text =>
  match number? text with
  | none => refuse "f64" text
  | some read => do
    let (n, rest) ← read
    return (n.toBinary64, rest)

/-- A count: a whole number that is not negative and has no fraction or exponent. -/
def count : Decoder Nat := fun text =>
  match number? text with
  | none => refuse "u64" text
  | some read => do
    let (n, rest) ← read
    match n with
    | .natural n => return (n, rest)
    | .negative n => .error (.negativeCount n)
    | .binary x => .error (.wrongType (.number (.binary x)) "u64")

/-! ## Records -/

/-- A field of a record: its name, and what reads its value into the record. -/
structure RecordField (σ : Type) where
  name : String
  read : σ → Decoder σ

/-- A field whose value is stored by `set`. -/
def field {α σ : Type} (name : String) (value : Decoder α) (set : σ → α → σ) : RecordField σ where
  name := name
  read := fun record text => do
    let (a, rest) ← value text
    return (set record a, rest)

variable {σ : Type}

/--
The fields of an object from the first one on, `seen` being the names read before. At most `fuel`
characters are left to read.
-/
def readNamed (fields : List (RecordField σ)) : Nat → List String → σ → Decoder σ
  | 0, _, _, _ => .error (.malformed .endInObject)
  | fuel + 1, seen, record, text => do
    let (name, rest) ← lift readName text
    match fields.find? fun f => f.name = name with
    | none => .error (.unknownField name (fields.map RecordField.name))
    | some f =>
      if name ∈ seen then .error (.duplicateField name)
      else do
        let ((), rest) ← lift readColon rest
        let (record, rest) ← f.read record rest
        match ← lift readFieldSeparator rest with
        | (.done, rest) => return (record, rest)
        | (.another, rest) => readNamed fields fuel (name :: seen) record rest

/-- The end of an array of which all fields were read, after the last one. -/
def readArrayEnd : Reader Unit := fun text =>
  match skipBlanks text with
  | [] => .error .endInArray
  | ']' :: rest => .ok ((), rest)
  | ',' :: rest =>
    match skipBlanks rest with
    | ']' :: _ => .error .trailingComma
    | _ => .error .trailingText
  | _ => .error .trailingText

/-- The fields of an array from the first one on. -/
def readInOrder : List (RecordField σ) → σ → Decoder σ
  | [], record, text => do
    let ((), rest) ← lift readArrayEnd text
    return (record, rest)
  | [f], record, text => do
    let (record, rest) ← f.read record text
    let ((), rest) ← lift readArrayEnd rest
    return (record, rest)
  | f :: g :: fields, record, text => do
    let (record, rest) ← f.read record text
    match ← lift readElementSeparator rest with
    | (.done, rest) => return (record, rest)
    | (.another, rest) => readInOrder (g :: fields) record rest

/-- A record: an object or an array whose fields overwrite those of `standard`. -/
def record (expected : String) (fields : List (RecordField σ)) (standard : σ) : Decoder σ :=
  fun text =>
  match skipBlanks text with
  | '[' :: rest =>
    match skipBlanks rest with
    | [] => .error (.malformed .endInArray)
    | ']' :: rest => .ok (standard, rest)
    | rest => readInOrder fields standard rest
  | '{' :: rest =>
    match skipBlanks rest with
    | [] => .error (.malformed .endInObject)
    | '}' :: rest => .ok (standard, rest)
    | rest => readNamed fields rest.length [] standard rest
  | _ => refuse expected text

/-- What a whole text of settings writes. -/
def decode {α : Type} (decoder : Decoder α) (text : String) : Except DecodeError α := do
  let result ← decoder text.toList
  match finish result with
  | .ok value => .ok value
  | .error cause => .error (.malformed cause)

end Decoder

end BenchGate
