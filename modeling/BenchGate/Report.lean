import BenchGate.Assessment.Summary
import BenchGate.Files.Step
import BenchGate.Files.Text
import BenchGate.Results.Loading

/-!
# Reports

A report is a list of files with their contents, written one after the other into a directory that
is made if it does not exist. A report without files leaves everything as it is.
-/

namespace BenchGate

/-- The statistics of a suite in JSON. -/
def SuiteFigures.toJson (s : SuiteFigures) : Json :=
  .object
    [ ("total_benchmarks", .ofNat s.total),
      ("successful_benchmarks", .ofNat s.successful),
      ("success_rate", .ofBinary64 s.successRate),
      ("avg_execution_time", .ofBinary64 s.averageTime) ]

/-- The statistics of a run in JSON. -/
def Statistics.toJson (s : Statistics) : Json :=
  .object
    [ ("total_benchmarks", .ofNat s.total),
      ("successful_benchmarks", .ofNat s.successful),
      ("failed_benchmarks", .ofNat s.failed),
      ("success_rate", .ofBinary64 s.successRate),
      ("avg_execution_time", .ofBinary64 s.averageTime),
      ("avg_memory_usage", .ofBinary64 s.averageMemory),
      ("suites", .ofStrings s.suites),
      ("platforms", .ofStrings s.platforms),
      ("tool_versions", .ofStrings s.toolVersions),
      ("per_suite", .object (s.perSuite.map fun (suite, figures) => (suite, figures.toJson))) ]

/-- A file of a report. -/
structure ReportFile where
  /-- Where the file goes, from the directory of the report. -/
  path : Path
  content : String
  deriving DecidableEq

/-- The files of a report, in the order in which they are written. -/
abbrev Report := List ReportFile

namespace Report

/-- The hints in words. -/
def hintsText (hints : List Hint) : String :=
  renderLines false <|
    plainLine "Performance Recommendations" :: plainLine (rule 30) :: blankLine ::
      (numbered (hints.map Hint.message)).map plainLine

/-- The comparison with the baseline; nothing without one. -/
def ofComparison (e : Assessment) : Report :=
  match e.comparison with
  | none => []
  | some c =>
    [⟨.ofText comparisonFileName, c.toJson.render⟩, ⟨.ofText comparisonTextFileName, c.toText⟩]

/-- The summary, the statistics and the hints, after the comparison. -/
def full (e : Assessment) (timestamp : Timestamp) : Report :=
  ofComparison e ++
    [ ⟨.ofText summaryFileName, (e.summary timestamp).toJson.render⟩,
      ⟨.ofText statisticsFileName, e.statistics.toJson.render⟩,
      ⟨.ofText hintsFileName, hintsText e.hints⟩ ]

end Report

/-- Why a report could not be written. -/
inductive ReportError where
  | directory (path : Path) (cause : FileError)
  | file (path : Path) (cause : FileError)
  deriving DecidableEq

/-- The wording of an error. -/
def ReportError.message : ReportError → String
  | directory path cause => s!"Output directory {path.quoted} creating: {cause.message}"
  | file path cause => s!"Report file {path.quoted} writing: {cause.message}"

namespace Report

/-- The steps that write a report into a directory. -/
def steps (files : FileTree) (directory : Path) (report : Report) : List (Guarded ReportError) :=
  (if report.isEmpty then [] else
    (files.directoriesFor directory).map fun path =>
      ⟨.ensureDirectory path, .directory directory⟩) ++
  report.map fun file =>
    let path := directory.join file.path
    ⟨.write path file.content.toUTF8, .file path⟩

/-- Writes a report into a directory. -/
def write (files : FileTree) (directory : Path) (report : Report) :
    FileTree × Except ReportError Unit :=
  runSteps files (report.steps files directory)

end Report

end BenchGate
