import BenchGate.Files.Access
import BenchGate.Files.Glob

/-!
# Finding files by pattern

A pattern is matched one component at a time, keeping the path by which each place was reached:

* a literal component is simply appended, if something exists there;
* a component with wildcards is matched against the names in a directory;
* `**` is passed together with the component after it, which may match at any depth below; at the
  end of a pattern it reaches every directory below.

The path of a directory is itself part of the pattern for what lies below it, so wildcards in its
name reach other directories.

Places come in the order of a walk: a directory before what is in it, and names in the order of
their bytes. One place can be reached by several paths, and then counts several times.
-/

namespace BenchGate

/-- Whether a location comes before another one in a walk, or is equal to it. -/
def Location.le : Location → Location → Bool
  | [], _ => true
  | _ :: _, [] => false
  | a :: as, b :: bs => if a = b then Location.le as bs else decide (a ≤ b)

namespace FileTree

/-- The path to an entry below a directory; in the working directory it is just the names. -/
def within (directory : Path) (names : List String) : Path :=
  if directory.components = [.here] then ⟨names⟩ else directory.join ⟨names⟩

/-- The entries in a directory: their paths and names. -/
def listDirectory (t : FileTree) (p : Path) : List (Path × String) :=
  match t.locate p with
  | .ok (l, .directory) =>
    let locations := ((t.children l).map Prod.fst).mergeSort Location.le
    locations.filterMap fun below => below.getLast?.map fun name => (within p [name], name)
  | _ => []

/--
The entries at any depth below a directory: their paths and names. What is in a directory whose path
is too long cannot be listed.
-/
def listBelow (t : FileTree) (p : Path) : List (Path × String) :=
  match t.locate p with
  | .ok (l, .directory) =>
    let walk := ((t.descendants l).map fun entry => entry.1.drop l.length).mergeSort Location.le
    walk.filterMap fun names =>
      if names.length ≤ 1 ∨ (within p names.dropLast).hasFittingLength then
        names.getLast?.map fun name => (within p names, name)
      else none
  | _ => []

/-- The segments that stand for the directory above or a directory itself, as far as they fit. -/
def specialNames : List GlobToken → List String
  | .char '.' :: tokens =>
    ["..", "."].filter fun name => GlobToken.fits (.char '.' :: tokens) name.toList
  | _ => []

/-- The places that the components of a pattern reach from a path. -/
def reach (t : FileTree) : List GlobComponent → Path → List Path
  | [], p => [p]
  | .literal segment :: rest, p =>
    let next := within p [segment]
    if segment = "." ∨ segment = ".." then
      if t.isDirectory p then t.reach rest next else []
    else if t.pathExists next then t.reach rest next else []
  | .wild tokens :: rest, p =>
    if t.isDirectory p then
      let named := (t.listDirectory p).filter fun entry => GlobToken.fits tokens entry.2.toList
      ((specialNames tokens).flatMap fun name => t.reach rest (p.join ⟨[name]⟩)) ++
        named.flatMap fun entry => t.reach rest entry.1
    else []
  | [.directories], p => ((t.listBelow p).map Prod.fst).filter t.isDirectory
  | .directories :: component :: rest, p =>
    let named := (t.listBelow p).filter fun entry => component.fits entry.2
    named.flatMap fun entry => t.reach rest entry.1

/-- The paths that exist and match the text of a pattern. -/
def glob (t : FileTree) (pattern : String) : Except GlobError (List Path) := do
  discard (GlobToken.ofText pattern)
  let p := Path.ofText pattern
  let segments := if p.isAbsolute then p.segments.dropWhile (· = "") else p.segments
  let components ← segments.mapM GlobComponent.ofText
  let start : Path := if p.isAbsolute then ⟨["", ""]⟩ else ⟨["."]⟩
  return t.reach (GlobComponent.collapse components) start

end FileTree

end BenchGate
