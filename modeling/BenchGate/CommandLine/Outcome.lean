import BenchGate.Files.Tree
import BenchGate.Terminal

/-!
# Outcomes of a command

A command prints lines to the standard output and the standard error, leaves a file tree behind, and
ends with an exit code: zero for an accepted run, one for a rejected run or an error.
-/

namespace BenchGate

/-- All that a command does. -/
structure Outcome where
  exitCode : Nat
  output : List Line
  errors : List Line
  files : FileTree

namespace Outcome

/-- The exit code of an accepted run. -/
def acceptedCode : Nat := 0

/-- The exit code of a rejected run and of an error. -/
def rejectedCode : Nat := 1

/-- The end of a run that was accepted or rejected. -/
def verdict (accepted : Bool) (files : FileTree) : Outcome where
  exitCode := if accepted then acceptedCode else rejectedCode
  output := []
  errors := []
  files := files

/-- The end of a run that an error stopped. -/
def stopped (message : String) (files : FileTree) : Outcome where
  exitCode := rejectedCode
  output := []
  errors := [[⟨.bad, "error"⟩, ⟨.plain, s!": {message}"⟩]]
  files := files

/-- What comes after lines on the standard output. -/
def after (lines : List Line) (o : Outcome) : Outcome := { o with output := lines ++ o.output }

/-- What comes after lines on the standard error. -/
def afterErrors (lines : List Line) (o : Outcome) : Outcome :=
  { o with errors := lines ++ o.errors }

end Outcome

/-- A warning. -/
def warningLine (text : String) : Line := [⟨.caution, "warning"⟩, ⟨.plain, s!": {text}"⟩]

/-- A line that names a step of the run, some blanks further in. -/
def progressLine (indent : Nat) (verb text : String) : Line :=
  [⟨.plain, String.ofList (List.replicate indent ' ')⟩, ⟨.good, verb⟩, ⟨.plain, s!" {text}"⟩]

end BenchGate
