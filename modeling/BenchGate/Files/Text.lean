import BenchGate.Files.Access
import BenchGate.Text.Quoted

/-!
# Reading texts from files

A file holds bytes; most of what is read from one is text, which has to be valid UTF-8.
-/

namespace BenchGate

/-- A path as a message shows it. -/
def Path.quoted (p : Path) : String := quotedText p.toText

/-- The cause for which no text could be read. -/
inductive TextError where
  | file (cause : FileError)
  | notUtf8
  deriving DecidableEq

/-- The wording of a cause. -/
def TextError.message : TextError → String
  | file cause => cause.message
  | notUtf8 => "stream did not contain valid UTF-8"

/-- The text of the file at a path. -/
def FileTree.readText (t : FileTree) (p : Path) : Except TextError String :=
  match t.readFile p with
  | .error cause => .error (.file cause)
  | .ok bytes =>
    match String.fromUTF8? bytes with
    | some text => .ok text
    | none => .error .notUtf8

end BenchGate
