import BenchGate.CommandLine.Run
import BenchGate.CommandLine.Usage
import BenchGate.Files.Changes
import Std.Time.DateTime.Timestamp

/-!
# The program

The first word names a command and the others are its arguments. The files below the working
directory, and those that an argument names elsewhere, are read into a file tree; the command runs
on that tree, and what it changed there is then changed on the disk.

A file is written beside its place and moved there, so nobody reads one that is only partly written.
-/

namespace BenchGate

/-! ## Reading the disk -/

/-- A location as the disk knows it. -/
def onDisk (l : Location) : IO.FS.DirEntry := ⟨"/", "/".intercalate l⟩

/-- What stands at a location on the disk, if it can be read. -/
def readEntry? (l : Location) : IO (Option Entry) := do
  try
    if ← (onDisk l).path.isDir then return some .directory
    else return some (.file (← IO.FS.readBinFile (onDisk l).path))
  catch _ => return none

/-- Adds what stands below a directory on the disk. Links to directories are not followed. -/
partial def readBelow (files : FileTree) (l : Location) : IO FileTree := do
  let mut files := files
  for child in ← (onDisk l).path.readDir do
    let here := l ++ [child.fileName]
    match ← readEntry? here with
    | none => pure ()
    | some entry =>
      files := files.insert here entry
      if entry = .directory then
        match (← child.path.symlinkMetadata).type with
        | .dir => files ← readBelow files here
        | _ => pure ()
  return files

/-- Adds what stands at a location on the disk, on the way to it and below it. -/
def readAt (files : FileTree) (l : Location) : IO FileTree := do
  let mut files := files
  for n in List.range l.length do
    match ← readEntry? (l.take (n + 1)) with
    | none => pure ()
    | some entry => files := files.insert (l.take (n + 1)) entry
  if files.find? l = some .directory then readBelow files l else return files

/--
Adds what a path names outside of the working directory, and the file beside it that a promotion
writes first.
-/
def readElsewhere (home : Location) (files : FileTree) (p : Path) : IO FileTree :=
  [p, stagingPath p].foldlM
    (fun files p =>
      let l := locationFrom home p
      if FileTree.isWithin home l then return files else readAt files l)
    files

/-- The part of a word that can be a path: what follows the first `=` of an option. -/
def pathIn (word : String) : Path :=
  .ofText <| if word.startsWith "--" then "=".intercalate ((word.splitOn "=").drop 1) else word

/-- The working directory and the files in reach of a command. -/
def snapshot (words : List String) : IO FileTree := do
  let home := locationFrom [] (.ofText (← IO.currentDir).toString)
  let files ← readBelow ((FileTree.empty.insertDirectories home).enter home) home
  (words.map pathIn).foldlM (readElsewhere home) files

/-! ## Changing the disk -/

/-- Makes a location on the disk what it is in a tree. -/
def store : Location × Option Entry → IO Unit
  | (l, none) => IO.FS.removeFile (onDisk l).path
  | (l, some .directory) => IO.FS.createDir (onDisk l).path
  | (l, some (.file content)) => do
    let staged := onDisk (l.dropLast ++ ["." ++ l.getLastD "" ++ ".new"])
    IO.FS.writeBinFile staged.path content
    IO.FS.rename staged.path (onDisk l).path

/-! ## Running -/

/-- The current time. -/
def currentTime : IO Timestamp := do
  let now ← Std.Time.Timestamp.now
  return ⟨now.val.second.val, now.val.nano.val.toNat⟩

/-- Whether to show colours. -/
def readColour : IO Bool := do
  let force ← IO.getEnv "CLICOLOR_FORCE"
  let forbid ← IO.getEnv "NO_COLOR"
  let allow ← IO.getEnv "CLICOLOR"
  return wantsColour force forbid allow (← (← IO.getStdout).isTty)

/-- Runs a command on the disk. -/
def runCommand (command : Command) (words : List String) : IO UInt32 := do
  let before ← snapshot words
  let outcome := match command.run words before (← currentTime) with
    | .ok outcome => outcome
    | .error stop => command.explain stop before
  let colour ← readColour
  IO.print (renderLines colour outcome.output)
  (outcome.files.changesSince before).forM store
  IO.eprint (renderLines colour outcome.errors)
  return outcome.exitCode.toUInt32

/-- Runs the command that the first word names. -/
def runWords (words : List String) : IO UInt32 := do
  match words.head?.bind Command.ofName? with
  | some command => runCommand command words.tail
  | none =>
    IO.eprintln "Usage: <COMMAND> [OPTIONS], where the command is one of"
    for command in [Command.analyzer, .regression, .gate] do IO.eprintln s!"  {command.name}"
    return Outcome.usageCode.toUInt32

end BenchGate

/-- Reads the words of the command line and answers with the exit code. -/
def main (words : List String) : IO UInt32 := BenchGate.runWords words
