import BenchGate.Binary64.Reading
import BenchGate.Files.Path

/-!
# Options of a command

A command line is read word by word. An option is `--name=value`, or `--name` followed by its value
in the next word; a flag has no value and may have a letter, and letters can be joined, as in `-qv`.

A value in a word of its own is looked at only when the next option or the end is reached, so a word
that is wrong in itself is reported before it. Each option is given at most once.
-/

namespace BenchGate

/-- What an option is given. -/
inductive OptionKind where
  | flag
  | path
  | number
  | count
  deriving DecidableEq

/-- An option of a command. -/
structure OptionSpec where
  name : String
  kind : OptionKind
  /-- The letter of a flag that has one. -/
  letter : Option Char := none
  deriving DecidableEq

/-- A value that was given. -/
inductive OptionValue where
  | flag
  | path (p : Path)
  | number (x : Binary64)
  | count (n : Nat)

/-- Why a command does not run. -/
inductive UsageStop where
  /-- Help was asked for. -/
  | help
  | unknownArgument
  /-- A value is missing, or a path is empty. -/
  | invalidValue
  /-- A value is no number. -/
  | badNumber
  /-- An option is given twice, or together with one that excludes it. -/
  | conflict
  /-- A flag is given a value. -/
  | tooManyValues
  | missingRequired
  deriving DecidableEq

/-- The options that were given, by name. -/
abbrev GivenOptions := List (String × OptionValue)

namespace GivenOptions

/-- Whether an option was given. -/
def has (given : GivenOptions) (name : String) : Bool := (given.lookup name).isSome

/-- The path that an option was given. -/
def path? (given : GivenOptions) (name : String) : Option Path :=
  match given.lookup name with
  | some (.path p) => some p
  | _ => none

/-- The number that an option was given. -/
def number? (given : GivenOptions) (name : String) : Option Binary64 :=
  match given.lookup name with
  | some (.number x) => some x
  | _ => none

/-- The count that an option was given. -/
def count? (given : GivenOptions) (name : String) : Option Nat :=
  match given.lookup name with
  | some (.count n) => some n
  | _ => none

end GivenOptions

/-- How far the words of a command line have been read. -/
structure OptionState where
  given : GivenOptions
  /-- The last option, while its value is in a word of its own and has not been looked at. -/
  waiting : Option (OptionSpec × Option String)
  /-- Whether `--` was read, after which no option follows. -/
  ended : Bool

namespace OptionState

/-- Nothing has been read. -/
def start : OptionState := ⟨[], none, false⟩

/-- The value of an option, from its text. -/
def readValue (kind : OptionKind) (text : String) : Except UsageStop OptionValue :=
  match kind with
  | .flag => .ok .flag
  | .path => if text.isEmpty then .error .invalidValue else .ok (.path (.ofText text))
  | .number =>
    match Binary64.read? text with
    | some x => .ok (.number x)
    | none => .error .badNumber
  | .count =>
    match readCount? text with
    | some n => .ok (.count n)
    | none => .error .badNumber

/-- Adds an option that was not given before. -/
def give (s : OptionState) (spec : OptionSpec) (text : String) : Except UsageStop OptionState := do
  if s.given.has spec.name then .error .conflict
  else return { s with given := (spec.name, ← readValue spec.kind text) :: s.given }

/-- Looks at the value that is waiting. -/
def settle (s : OptionState) : Except UsageStop OptionState :=
  match s.waiting with
  | none => .ok s
  | some (_, none) => .error .invalidValue
  | some (spec, some text) => { s with waiting := none }.give spec text

/-- A flag without a value. -/
def readFlag (s : OptionState) (spec : OptionSpec) : Except UsageStop OptionState := do
  let s ← s.settle
  if spec.name = "help" then .error .help else s.give spec ""

/-- The letters behind a single dash. -/
def readLetters (specs : List OptionSpec) (s : OptionState) :
    List Char → Except UsageStop OptionState
  | [] => .ok s
  | c :: rest =>
    match specs.find? fun spec => spec.letter = some c with
    | none => .error .unknownArgument
    | some spec => do readLetters specs (← s.readFlag spec) rest

/-- An option by its name, with the text after `=` if there is one. -/
def readNamed (specs : List OptionSpec) (s : OptionState) (name : String) (value : Option String) :
    Except UsageStop OptionState :=
  match specs.find? fun spec => spec.name = name with
  | none => .error .unknownArgument
  | some spec =>
    match spec.kind, value with
    | .flag, some _ => .error .tooManyValues
    | .flag, none => s.readFlag spec
    | _, some text => do (← s.settle).give spec text
    | _, none => do return { (← s.settle) with waiting := some (spec, none) }

/-- One word of a command line. -/
def readWord (specs : List OptionSpec) (s : OptionState) (word : String) :
    Except UsageStop OptionState :=
  if s.ended then .error .unknownArgument
  else match word.toList with
    | ['-', '-'] => .ok { s with ended := true }
    | '-' :: '-' :: rest =>
      let name := rest.takeWhile (· ≠ '=')
      let value := match rest.dropWhile (· ≠ '=') with
        | [] => none
        | _ :: text => some (String.ofList text)
      s.readNamed specs (String.ofList name) value
    | '-' :: c :: rest => s.readLetters specs (c :: rest)
    | _ =>
      match s.waiting with
      | some (spec, none) => .ok { s with waiting := some (spec, some word) }
      | _ => .error .unknownArgument

/-- All options of a command line. -/
def readAll (specs : List OptionSpec) (words : List String) : Except UsageStop GivenOptions := do
  let s ← words.foldlM (readWord specs) start
  return (← s.settle).given

end OptionState

end BenchGate
