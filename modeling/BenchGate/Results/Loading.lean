import BenchGate.Files.Discovery
import BenchGate.Files.Text
import BenchGate.Json.Reader
import BenchGate.Results.Basic

/-!
# Loading results

Results are loaded from one file of any shape, or from all record files of a directory. In a
directory, baselines and reports are left out, and what cannot be read as a list of records is
skipped with its error. A baseline may be absent, but not unreadable.
-/

namespace BenchGate

/-- The names of the files that runs leave behind. -/
def summaryFileName : String := "performance-summary.json"

/-- The file name of a comparison in JSON. -/
def comparisonFileName : String := "performance-comparison.json"

/-- The file name of a comparison in words. -/
def comparisonTextFileName : String := "comparison-summary.txt"

/-- The file name of the statistics. -/
def statisticsFileName : String := "summary_stats.json"

/-- The file name of the hints. -/
def hintsFileName : String := "recommendations.txt"

/-- The name of the baseline in a directory of results. -/
def baselineFileName : String := "baseline.json"

/-- Why an input could not be loaded. -/
inductive InputError where
  | missing (path : Path)
  | reading (path : Path) (cause : TextError)
  | parsing (path : Path) (cause : JsonError)
  | pattern (path : Path) (cause : GlobError)
  | unexpectedShape (path : Path)

/-- The wording of an error. -/
def InputError.message : InputError → String
  | missing path => s!"Input {path.quoted} not found"
  | reading path cause => s!"Reading input file {path.quoted}: {cause.message}"
  | parsing path cause => s!"Parsing input file {path.quoted}: {cause.message}"
  | pattern path cause => s!"Resolving input directory {path.quoted}: {cause.message}"
  | unexpectedShape path => s!"Input file {path.quoted} is not a list of benchmark records"

/-- The JSON value in a file. -/
def FileTree.readJson (files : FileTree) (path : Path) : Except InputError Json :=
  if files.pathExists path then
    match files.readText path with
    | .error cause => .error (.reading path cause)
    | .ok text =>
      match Json.parse text with
      | .error cause => .error (.parsing path cause)
      | .ok value => .ok value
  else .error (.missing path)

namespace Results

/-- The results in a file. -/
def ofFile (files : FileTree) (origin : Origin) (path : Path) : Except InputError Results := do
  return ofJson origin (← files.readJson path)

/-- The baseline in a file, if there is one. -/
def baselineOfFile? (files : FileTree) (path : Path) : Except InputError (Option Results) :=
  match ofFile files .baseline path with
  | .ok results => .ok (some results)
  | .error (.missing _) => .ok none
  | .error error => .error error

/-! ## Directories -/

/-- Whether a text occurs in another one. -/
def occursIn (part : List Char) : List Char → Bool
  | [] => part.isEmpty
  | c :: rest => part.isPrefixOf (c :: rest) || occursIn part rest

/-- Whether a file of this name in a directory of results holds records of the current run. -/
def isRecordFileName (name : String) : Bool :=
  !occursIn "baseline".toList name.toList &&
    !([summaryFileName, comparisonFileName, statisticsFileName].contains name)

/-- Whether a path in a directory of results leads to records of the current run. -/
def isRecordFile (path : Path) : Bool :=
  match path.fileName? with
  | some name => isRecordFileName name
  | none => false

/-- The pattern of the files in a directory of results. -/
def patternFor (directory : Path) : String := directory.toText ++ "/**/*.json"

/-- The records in a file, or the error for which it is skipped. -/
def recordsOfFile (files : FileTree) (path : Path) : Except InputError (List Record) :=
  match files.readJson path with
  | .ok (.array elements) => .ok (elements.map Record.ofJson)
  | .ok _ => .error (.unexpectedShape path)
  | .error error => .error error

/-- The record files of a directory, in the order of their paths. -/
def recordFiles (files : FileTree) (directory : Path) : Except InputError (List Path) :=
  match files.glob (patternFor directory) with
  | .error cause => .error (.pattern directory cause)
  | .ok paths => .ok ((paths.filter isRecordFile).mergeSort Path.le)

/-- The records of all record files of a directory, and the errors of those that were skipped. -/
def ofDirectory (files : FileTree) (origin : Origin) (directory : Path) :
    Except InputError (Results × List InputError) :=
  if files.isDirectory directory then
    match recordFiles files directory with
    | .error error => .error error
    | .ok paths =>
      let contents := paths.map (recordsOfFile files)
      let records := contents.flatMap fun content => content.toOption.getD []
      let skipped := contents.filterMap fun
        | .ok _ => none
        | .error error => some error
      .ok (ofRecords origin records, skipped)
  else .error (.missing directory)

end Results

end BenchGate
