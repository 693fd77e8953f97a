import BenchGate.Files.Access

/-!
# Changing a file tree step by step

Reports and baselines are written by sequences of elementary steps. A step either goes through or
leaves the tree as it was; a sequence stops at its first failure and keeps what was done before.

Another process can look at the tree between two steps, and in the middle of a write, when only some
of the bytes are in the file. `statesOf` lists all the trees that it can see.
-/

namespace BenchGate

/-- An elementary change. -/
inductive FileStep where
  /-- Creates a directory, unless it exists already. -/
  | ensureDirectory (path : Path)
  /-- Creates or empties a file, then fills it. -/
  | write (path : Path) (content : ByteArray)
  /-- Moves a file to another name, all at once. -/
  | move (source destination : Path)

namespace FileStep

/-- The tree after a step. -/
def run (t : FileTree) : FileStep → Except FileError FileTree
  | ensureDirectory path =>
    match t.makeDirectory path with
    | .ok t => .ok t
    | .error cause => if t.isDirectory path then .ok t else .error cause
  | write path content => t.writeFile path content
  | move source destination => t.moveFile source destination

/-- The trees that can be seen while a step is under way: any prefix of the bytes can be written. -/
def midway (t : FileTree) : FileStep → List FileTree
  | write path content =>
    (List.range (content.size + 1)).filterMap fun n =>
      (t.writeFile path (content.extract 0 n)).toOption
  | _ => []

end FileStep

/-- A step, and what its failure means to the caller. -/
structure Guarded (ε : Type) where
  step : FileStep
  failure : FileError → ε

/-- Runs steps up to the first failure; the tree keeps what was done before it. -/
def runSteps {ε : Type} (t : FileTree) : List (Guarded ε) → FileTree × Except ε Unit
  | [] => (t, .ok ())
  | g :: rest =>
    match g.step.run t with
    | .ok t => runSteps t rest
    | .error cause => (t, .error (g.failure cause))

/-- Every tree that can be seen while steps run, from the first to the last. -/
def statesOf {ε : Type} (t : FileTree) : List (Guarded ε) → List FileTree
  | [] => [t]
  | g :: rest =>
    match g.step.run t with
    | .ok after => t :: g.step.midway t ++ statesOf after rest
    | .error _ => [t]

/-! ## Directories with those above them -/

/-- A path and the paths above it, the nearest first. There are at most `fuel` of them. -/
def Path.andAbove : Nat → Path → List Path
  | 0, _ => []
  | fuel + 1, p =>
    if p.isEmpty then []
    else p :: match p.parent? with
      | none => []
      | some above => above.andAbove fuel

/-- The first paths of a list up to one whose directory can be made or has another obstacle. -/
def FileTree.upToMakeable (t : FileTree) : List Path → List Path
  | [] => []
  | p :: above =>
    match t.makeDirectory p with
    | .error .notFound => p :: t.upToMakeable above
    | _ => [p]

/-- The directories to make so that a path is one, the topmost first. -/
def FileTree.directoriesFor (t : FileTree) (p : Path) : List Path :=
  (t.upToMakeable (p.andAbove (p.segments.length + 1))).reverse

end BenchGate
