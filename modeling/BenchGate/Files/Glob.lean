/-!
# File name patterns

A pattern is a path in which `?` stands for any character, `*` for any characters, `[ab-d]` and
`[!ab-d]` for a character in or outside a set, and a component `**` for any number of directories.

A pattern is checked as a whole before its components are: the positions in a complaint count
characters from the start of what was being checked.
-/

namespace BenchGate

/-- What stands in a pattern for one character or several. -/
inductive GlobToken where
  | char (c : Char)
  | anyChar
  | anySequence
  /-- Any number of directories. -/
  | anyDirectories
  /-- A character in one of the ranges. -/
  | oneOf (ranges : List (Char × Char))
  /-- A character in none of the ranges. -/
  | noneOf (ranges : List (Char × Char))
  deriving DecidableEq

/-- What is wrong with a pattern. -/
inductive GlobFault where
  /-- A bracket that opens no set. -/
  | badSet
  /-- More than two stars in a row. -/
  | tooManyStars
  /-- Two stars next to something other than a slash. -/
  | sharedComponent
  deriving DecidableEq

/-- What is wrong with a pattern, and where. -/
structure GlobError where
  position : Nat
  fault : GlobFault
  deriving DecidableEq

/-- The wording of a fault. -/
def GlobFault.message : GlobFault → String
  | badSet => "invalid range pattern"
  | tooManyStars => "wildcards are either regular `*` or recursive `**`"
  | sharedComponent => "recursive wildcards must form a single path component"

/-- The wording of an error. -/
def GlobError.message (e : GlobError) : String :=
  "Pattern syntax error near position " ++ toString e.position ++ ": " ++ e.fault.message

namespace GlobToken

/-- The ranges of a set: `a-d` is one, and so is a single character. -/
def ranges : List Char → List (Char × Char)
  | a :: '-' :: b :: rest => (a, b) :: ranges rest
  | a :: rest => (a, a) :: ranges rest
  | [] => []

/-- The characters of a set up to its closing bracket, and what follows the bracket. The first
character belongs to the set even if it is a bracket. -/
def splitSet : List Char → Option (List Char × List Char)
  | [] => none
  | first :: rest =>
    match rest.dropWhile (· ≠ ']') with
    | [] => none
    | _ :: after => some (first :: rest.takeWhile (· ≠ ']'), after)

/--
The tokens of a pattern that goes on with `text` at `position`, after the character `before`. At
most `fuel` characters are left to read.
-/
def scan : Nat → Nat → Option Char → List Char → Except GlobError (List GlobToken)
  | 0, _, _, _ => .ok []
  | _, _, _, [] => .ok []
  | fuel + 1, position, before, c :: rest =>
    if c = '?' then do
      return .anyChar :: (← scan fuel (position + 1) (some c) rest)
    else if c = '*' then
      match rest with
      | '*' :: '*' :: _ => .error ⟨position + 2, .tooManyStars⟩
      | '*' :: after =>
        if position ≠ 0 ∧ before ≠ some '/' then .error ⟨position - 1, .sharedComponent⟩
        else match after with
          | [] => .ok [.anyDirectories]
          | '/' :: after => do
            return .anyDirectories :: (← scan fuel (position + 3) (some '/') after)
          | _ => .error ⟨position + 2, .sharedComponent⟩
      | _ => do
        return .anySequence :: (← scan fuel (position + 1) (some c) rest)
    else if c = '[' then
      let (negated, inside) := match rest with
        | '!' :: inside => (true, inside)
        | inside => (false, inside)
      match splitSet inside with
      | none => .error ⟨position, .badSet⟩
      | some (set, after) => do
        let token := if negated then noneOf (ranges set) else oneOf (ranges set)
        let width := set.length + if negated then 3 else 2
        return token :: (← scan fuel (position + width) (some ']') after)
    else do
      return .char c :: (← scan fuel (position + 1) (some c) rest)

/-- The tokens of a pattern. -/
def ofText (text : String) : Except GlobError (List GlobToken) :=
  scan text.length 0 none text.toList

/-- The rests of a text, from the whole text to nothing. -/
def suffixes : List Char → List (List Char)
  | [] => [[]]
  | c :: rest => (c :: rest) :: suffixes rest

/-- Whether a character lies in one of the ranges. -/
def inRanges (ranges : List (Char × Char)) (c : Char) : Bool :=
  ranges.any fun r => r.1 ≤ c ∧ c ≤ r.2

/-- Whether a token can stand for one character. -/
def admits (c : Char) : GlobToken → Bool
  | char a => a = c
  | anyChar => true
  | oneOf set => inRanges set c
  | noneOf set => !inRanges set c
  | _ => false

/-- What is left of a text behind its first character, if a token can stand for that. -/
def dropFirst? (token : GlobToken) : List Char → Option (List Char)
  | [] => none
  | c :: rest => if token.admits c then some rest else none

/--
What can be left of a name behind one more token, given what can be left before it, longest first.
Behind any characters every rest of the longest one can be left, and the others are among these.
-/
def advance (lefts : List (List Char)) : GlobToken → List (List Char)
  | anySequence =>
    match lefts with
    | [] => []
    | longest :: _ => suffixes longest
  | anyDirectories => lefts
  | token => lefts.filterMap token.dropFirst?

/-- Whether a name, which has no slash in it, fits a list of tokens. -/
def fits (tokens : List GlobToken) (name : List Char) : Bool :=
  (tokens.foldl advance [name]).any List.isEmpty

end GlobToken

/-! ## Components -/

/-- One component of a pattern. -/
inductive GlobComponent where
  /-- A name, `.`, `..` or nothing between two slashes, without any wildcard. -/
  | literal (segment : String)
  /-- Any number of directories. -/
  | directories
  /-- A name with wildcards. -/
  | wild (tokens : List GlobToken)
  deriving DecidableEq

namespace GlobComponent

/-- The character that a token stands for, if it can only be one. -/
def plainChar? : GlobToken → Option Char
  | .char c => some c
  | _ => none

/-- One component of a pattern, from its text. -/
def ofText (text : String) : Except GlobError GlobComponent := do
  let tokens ← GlobToken.ofText text
  if tokens = [.anyDirectories] then return directories
  else if (tokens.filterMap plainChar?).length = tokens.length then return literal text
  else return wild tokens

/-- Whether a name fits a component. -/
def fits (name : String) : GlobComponent → Bool
  | literal segment => name = segment
  | directories => true
  | wild tokens => GlobToken.fits tokens name.toList

/-- Several components for any number of directories in a row say no more than one. -/
def collapse : List GlobComponent → List GlobComponent
  | directories :: rest =>
    match collapse rest with
    | directories :: others => directories :: others
    | others => directories :: others
  | c :: rest => c :: collapse rest
  | [] => []

end GlobComponent

end BenchGate
