import BenchGate.Files.Step
import BenchGate.Files.Text

/-!
# Promoting the current results

An accepted run can become the next baseline. Its results are copied to a file beside the baseline
and that file is then moved over the baseline, so nobody reads a baseline that is only partly
written.
-/

namespace BenchGate

/-- Why the current results did not become the baseline. -/
inductive PromotionError where
  | reading (path : Path) (cause : FileError)
  | directory (path : Path) (cause : FileError)
  | staging (path : Path) (cause : FileError)
  | replacing (path : Path) (cause : FileError)
  deriving DecidableEq

/-- The wording of an error. -/
def PromotionError.message : PromotionError → String
  | reading path cause => s!"Current results {path.quoted} reading: {cause.message}"
  | directory path cause => s!"Baseline directory {path.quoted} creating: {cause.message}"
  | staging path cause => s!"Baseline staging file {path.quoted} writing: {cause.message}"
  | replacing path cause => s!"Baseline {path.quoted} replacing: {cause.message}"

/-- The file that the next baseline is copied to first. -/
def stagingPath (baseline : Path) : Path := baseline.appendText ".tmp"

/-- The steps that make some bytes the baseline. -/
def promotionSteps (files : FileTree) (baseline : Path) (content : ByteArray) :
    List (Guarded PromotionError) :=
  (match baseline.parent? with
    | none => []
    | some parent => (files.directoriesFor parent).map fun path =>
        ⟨.ensureDirectory path, .directory parent⟩) ++
  [ ⟨.write (stagingPath baseline) content, .staging (stagingPath baseline)⟩,
    ⟨.move (stagingPath baseline) baseline, .replacing baseline⟩ ]

/-- Makes the current results the baseline. -/
def promote (files : FileTree) (current baseline : Path) : FileTree × Except PromotionError Unit :=
  match files.readFile current with
  | .error cause => (files, .error (.reading current cause))
  | .ok content => runSteps files (promotionSteps files baseline content)

/-- Every tree that can be seen while the current results become the baseline. -/
def promotionStates (files : FileTree) (current baseline : Path) : List FileTree :=
  match files.readFile current with
  | .error _ => [files]
  | .ok content => statesOf files (promotionSteps files baseline content)

end BenchGate
