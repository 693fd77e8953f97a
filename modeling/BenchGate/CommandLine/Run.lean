import BenchGate.CommandLine.Arguments
import BenchGate.CommandLine.Outcome
import BenchGate.Promotion
import BenchGate.Report

/-!
# Running the commands

Every command first settles the thresholds, then loads its inputs, assesses them, prints, and
writes last. What stops it before the writing leaves the files as they were.
-/

namespace BenchGate

/-- What the analyzer calls itself. -/
def productLine : String :=
  "Performance regression analyzer and CI gate for benchmark results v2.0.0"

/-- The comparison with the baseline on the terminal, if there is one and it is wanted. -/
def comparisonLines (quiet : Bool) (e : Assessment) : List Line :=
  match e.comparison with
  | some c => if quiet then [] else c.table ++ [blankLine]
  | none => []

/-- Texts as a numbered list, further in. -/
def numberedLines (texts : List String) : List Line :=
  (numbered texts).map fun text => plainLine s!"  {text}"

/-! ## Analyzing a directory -/

namespace AnalyzerArguments

/-- The path of the baseline. -/
def baselinePath (a : AnalyzerArguments) : Path :=
  a.baseline.getD (a.inputDirectory.join (.ofText baselineFileName))

/-- The statistics of the suites on the terminal. -/
def suiteLines (statistics : Statistics) : List Line :=
  (statistics.perSuite.map fun (suite, s) =>
    plainLine s!"  {suite}: {s.successful}/{s.total} successful, avg {s.averageTime.fixed 2}ms") ++
  [blankLine]

/-- What is printed about an assessment. -/
def assessmentLines (a : AnalyzerArguments) (e : Assessment) (now : Timestamp) : List Line :=
  comparisonLines a.verbosity.quiet e ++
  (if a.verbosity.quiet then [] else e.gateLines ++ [blankLine]) ++
  (if a.verbosity.verbose then suiteLines e.statistics else []) ++
  (e.summary now).lines ++
  [progressLine 5 "Writing" s!"reports to {a.outputDirectory.quoted}"]

/-- The end of a run whose assessment is known: the reports are written. -/
def finish (a : AnalyzerArguments) (files : FileTree) (now : Timestamp) (e : Assessment) :
    Outcome :=
  Outcome.after (a.assessmentLines e now) <|
    match (Report.full e now).write files a.outputDirectory with
    | (files, .ok ()) => .verdict e.isAccepted files
    | (files, .error error) => .stopped error.message files

/-- Whether there is a baseline to compare with, as the terminal shows it. -/
def baselineNotice (a : AnalyzerArguments) (baseline : Option Results) (o : Outcome) : Outcome :=
  match baseline with
  | some _ => o.after [progressLine 3 "Comparing" s!"against baseline {a.baselinePath.quoted}"]
  | none =>
    o.afterErrors [warningLine s!"baseline {a.baselinePath.quoted} not found, comparison skipped"]

/-- Judges a directory of results and writes the reports. -/
def run (a : AnalyzerArguments) (files : FileTree) (now : Timestamp) : Outcome :=
  match a.overrides.thresholds files with
  | .error error => .stopped error.message files
  | .ok thresholds =>
    Outcome.after [progressLine 4 "Starting" productLine] <|
    match Results.ofDirectory files .current a.inputDirectory with
    | .error error => .stopped error.message files
    | .ok (current, skipped) =>
      Outcome.afterErrors (skipped.map fun error => warningLine s!"skipping {error.message}") <|
      match Results.baselineOfFile? files a.baselinePath with
      | .error error => .stopped error.message files
      | .ok baseline =>
        a.baselineNotice baseline <|
        Outcome.after [progressLine 3 "Analyzing" s!"{current.total} benchmark results"] <|
        a.finish files now (.ofResults current baseline thresholds)

end AnalyzerArguments

/-! ## Comparing with a baseline -/

namespace RegressionArguments

/-- What is printed about an assessment. -/
def assessmentLines (a : RegressionArguments) (e : Assessment) : List Line :=
  comparisonLines a.verbosity.quiet e ++ e.gateLines ++ [blankLine] ++
  if e.isAccepted && !a.verbosity.verbose then []
  else numberedLines e.recommendations ++ [blankLine]

/-- The end of an accepted run: it becomes the baseline if that was asked for. -/
def accept (a : RegressionArguments) (files : FileTree) : Outcome :=
  Outcome.after
    [[⟨.good, "PASS"⟩, ⟨.plain, " No significant performance regression detected."⟩]] <|
  if a.promoteBaseline then
    match promote files a.current a.baseline with
    | (files, .ok ()) =>
      Outcome.after [progressLine 3 "Promoted" s!"baseline {a.baseline.quoted}"] <|
        .verdict true files
    | (files, .error error) => .stopped error.message files
  else .verdict true files

/-- The end of a rejected run. -/
def reject (files : FileTree) : Outcome :=
  Outcome.after
    [[⟨.bad, "FAIL"⟩, ⟨.plain, " Performance regression detected. Build will be rejected."⟩]] <|
  .verdict false files

/-- Writes the report on the comparison, if a directory for it is given. -/
def writeReport (a : RegressionArguments) (files : FileTree) (e : Assessment) :
    FileTree × Except ReportError Unit :=
  match a.outputDirectory with
  | none => (files, .ok ())
  | some directory => (Report.ofComparison e).write files directory

/-- The end of a run whose assessment is known: the report is written, then the run is accepted or
rejected. -/
def finish (a : RegressionArguments) (files : FileTree) (e : Assessment) : Outcome :=
  Outcome.after (a.assessmentLines e) <|
  match a.writeReport files e with
  | (files, .error error) => .stopped error.message files
  | (files, .ok ()) => if e.isAccepted then a.accept files else reject files

/-- The warning that there is no baseline. -/
def missingBaselineLine (a : RegressionArguments) : Line :=
  warningLine s!"baseline {a.baseline.quoted} not found, applying the gate thresholds only"

/-- Compares results with a baseline. -/
def run (a : RegressionArguments) (files : FileTree) : Outcome :=
  match a.overrides.thresholds files with
  | .error error => .stopped error.message files
  | .ok thresholds =>
    match Results.ofFile files .current a.current with
    | .error error => .stopped error.message files
    | .ok current =>
      match Results.baselineOfFile? files a.baseline with
      | .error error => .stopped error.message files
      | .ok baseline =>
        let warnings := if baseline.isSome then [] else [a.missingBaselineLine]
        Outcome.afterErrors warnings <| a.finish files (.ofResults current baseline thresholds)

end RegressionArguments

/-! ## Gating a summary -/

namespace GateArguments

/-- The path of the summary. -/
def summaryPath (a : GateArguments) : Path :=
  match a.place with
  | .file path => path
  | .directory path => path.join (.ofText summaryFileName)

/-- The recommendations in a summary, as the terminal shows them. -/
def recommendationLines (summary : Results) : List Line :=
  match summary.totals? with
  | none => []
  | some totals =>
    if totals.recommendations.isEmpty then []
    else blankLine :: plainLine "Recommendations:" :: numberedLines totals.recommendations

/-- Judges a written summary. -/
def run (a : GateArguments) (files : FileTree) : Outcome :=
  match a.overrides.thresholds files with
  | .error error => .stopped error.message files
  | .ok thresholds =>
    match Results.ofFile files .current a.summaryPath with
    | .error error => .stopped error.message files
    | .ok summary =>
      let e := Assessment.ofReported summary thresholds
      Outcome.after
        ((if a.verbosity.verbose then [plainLine e.current.toJson.render, blankLine] else []) ++
          e.gateLines ++
          if a.verbosity.quiet then [] else recommendationLines summary)
        (.verdict e.isAccepted files)

end GateArguments

/-! ## Any command -/

/-- Runs a command with the words of its command line. -/
def Command.run (command : Command) (words : List String) (files : FileTree) (now : Timestamp) :
    Except UsageStop Outcome :=
  match command with
  | .analyzer => return (← AnalyzerArguments.read words).run files now
  | .regression => return (← RegressionArguments.read words).run files
  | .gate => return (← GateArguments.read words).run files

end BenchGate
