import BenchGate.Files.Tree

/-!
# Reaching entries by path

A path is followed from the root or the working directory, one segment at a time; every name but the
last has to be a directory. Where it ends is a **target**: a directory itself when the path ends by
going up or staying, otherwise a name in an existing directory, whether or not something exists
there.

A trailing slash asks for a directory, so no file is read, written or moved through one. Names and
whole paths are limited in length: a path that is too long leads nowhere, and a name that is too
long is found out when it is looked up, so an obstacle on the way to it comes first.
-/

namespace BenchGate

/-- The cause for which a file operation failed. -/
inductive FileError where
  | notFound
  | busy
  | alreadyExists
  | notADirectory
  | isADirectory
  /-- A name or a whole path is too long. -/
  | nameTooLong
  /-- A path holds the character that ends a path for the system. -/
  | nulInPath
  deriving DecidableEq

/-- The wording of a cause. -/
def FileError.message : FileError → String
  | notFound => "No such file or directory (os error 2)"
  | busy => "Device or resource busy (os error 16)"
  | alreadyExists => "File exists (os error 17)"
  | notADirectory => "Not a directory (os error 20)"
  | isADirectory => "Is a directory (os error 21)"
  | nameTooLong => "File name too long (os error 36)"
  | nulInPath => "file name contained an unexpected NUL byte"

/-- The number of bytes that a name can have. -/
def longestName : Nat := 255

/-- The number of bytes that a path can have. -/
def longestPath : Nat := 4095

/-- Whether a path is not longer than a path can be. -/
def Path.hasFittingLength (p : Path) : Bool := p.toText.utf8ByteSize ≤ longestPath

/-- Where a path ends. -/
inductive Target where
  /-- An existing directory, reached by a path that does not end in a name. -/
  | directory (l : Location)
  /-- A name in an existing directory, followed by a slash or not. -/
  | entry (l : Location) (slash : Bool)

/-! ## The locations that paths name -/

/-- The location that a segment leads to from another one. -/
def Location.step (l : Location) (segment : String) : Location :=
  if Path.stays segment then l else if segment = ".." then l.dropLast else l ++ [segment]

/-- The location from which the segments of a path are followed. -/
def Path.start (home : Location) (p : Path) : Location := if p.isAbsolute then [] else home

/-- The location that a path names from another one, whether or not anything exists there. -/
def locationFrom (home : Location) (p : Path) : Location :=
  p.segments.foldl Location.step (p.start home)

namespace FileTree

/-- The location that a path names, whether or not anything exists there. -/
def locationOf (t : FileTree) (p : Path) : Location := locationFrom t.workingDirectory p

/-! ## Following paths -/

/-- What is found at a location whose name is looked up in its directory. -/
def lookUp (t : FileTree) (l : Location) : Except FileError (Option Entry) :=
  if longestName < (l.getLastD "").utf8ByteSize then .error .nameTooLong else .ok (t.find? l)

/-- Follows segments from an existing directory. -/
def follow (t : FileTree) : Location → List String → Except FileError Target
  | l, [] => .ok (.directory l)
  | l, segment :: rest =>
    if Path.stays segment then t.follow l rest
    else if segment = ".." then t.follow l.dropLast rest
    else if rest.all (· = "") then .ok (.entry (l ++ [segment]) (!rest.isEmpty))
    else match t.lookUp (l ++ [segment]) with
      | .ok (some .directory) => t.follow (l ++ [segment]) rest
      | .ok (some (.file _)) => .error .notADirectory
      | .ok none => .error .notFound
      | .error cause => .error cause

/-- Where a path ends. The empty path ends nowhere. -/
def target (t : FileTree) (p : Path) : Except FileError Target :=
  if p.segments.any (fun s => s.toList.contains '\x00') then .error .nulInPath
  else if !p.hasFittingLength then .error .nameTooLong
  else if p.isEmpty then .error .notFound
  else t.follow (if p.isAbsolute then [] else t.workingDirectory) p.segments

/-- The location where a path ends, if something exists there, and what it is. -/
def locate (t : FileTree) (p : Path) : Except FileError (Location × Entry) := do
  match ← t.target p with
  | .directory l => .ok (l, .directory)
  | .entry l slash =>
    match ← t.lookUp l, slash with
    | none, _ => .error .notFound
    | some .directory, _ => .ok (l, .directory)
    | some (.file _), true => .error .notADirectory
    | some (.file content), false => .ok (l, .file content)

/-- What exists where a path ends. -/
def look (t : FileTree) (p : Path) : Except FileError Entry := return (← t.locate p).2

/-- Whether something exists where a path ends. -/
def pathExists (t : FileTree) (p : Path) : Bool :=
  match t.look p with
  | .ok _ => true
  | .error _ => false

/-- Whether a path ends in a directory. -/
def isDirectory (t : FileTree) (p : Path) : Bool :=
  match t.look p with
  | .ok .directory => true
  | _ => false

/-- The bytes of the file at a path. -/
def readFile (t : FileTree) (p : Path) : Except FileError ByteArray := do
  match ← t.look p with
  | .directory => .error .isADirectory
  | .file content => .ok content

/-- Creates a file or replaces its content. -/
def writeFile (t : FileTree) (p : Path) (content : ByteArray) : Except FileError FileTree := do
  match ← t.target p with
  | .directory _ => .error .isADirectory
  | .entry _ true => .error .isADirectory
  | .entry l false =>
    if (← t.lookUp l) = some .directory then .error .isADirectory
    else .ok (t.insert l (.file content))

/-- Creates a directory where nothing exists. -/
def makeDirectory (t : FileTree) (p : Path) : Except FileError FileTree := do
  match ← t.target p with
  | .directory _ => .error .alreadyExists
  | .entry l _ =>
    if (← t.lookUp l) = none then .ok (t.insert l .directory) else .error .alreadyExists

/-- Moves a file to another name, over the file of that name if there is one. -/
def moveFile (t : FileTree) (source destination : Path) : Except FileError FileTree := do
  match ← t.target source, ← t.target destination with
  | .entry old oldSlash, .entry new newSlash =>
    match ← t.lookUp old with
    | none => .error .notFound
    | some .directory => .error .isADirectory
    | some (.file content) =>
      let replaced ← t.lookUp new
      if oldSlash ∨ newSlash then .error .notADirectory
      else if replaced = some .directory then .error .isADirectory
      else if old = new then .ok t
      else .ok ((t.remove old).insert new (.file content))
  | _, _ => .error .busy

end FileTree

end BenchGate
