import BenchGate.CommandLine.Options
import BenchGate.Thresholds.Config

/-!
# Arguments of the commands

There are three commands. `performance-analyzer` judges a directory of results and writes reports,
`performance-regression` compares one file of results with a baseline, and `performance-gate` judges
a written summary. All of them take the same overrides of the thresholds.
-/

namespace BenchGate

/-- Which of the commands is run. -/
inductive Command where
  | analyzer
  | regression
  | gate
  deriving DecidableEq

/-- The name of a command. -/
def Command.name : Command → String
  | analyzer => "performance-analyzer"
  | regression => "performance-regression"
  | gate => "performance-gate"

/-- The command of a name. -/
def Command.ofName? (name : String) : Option Command :=
  [analyzer, regression, gate].find? fun command => command.name = name

/-- How much a command prints. -/
structure Verbosity where
  quiet : Bool
  verbose : Bool
  deriving DecidableEq

/-- What `performance-analyzer` is asked to do. -/
structure AnalyzerArguments where
  inputDirectory : Path
  outputDirectory : Path
  /-- The baseline, unless it is the one in the input directory. -/
  baseline : Option Path
  overrides : Overrides
  verbosity : Verbosity

/-- What `performance-regression` is asked to do. -/
structure RegressionArguments where
  baseline : Path
  current : Path
  outputDirectory : Option Path
  /-- Whether an accepted run becomes the baseline. -/
  promoteBaseline : Bool
  overrides : Overrides
  verbosity : Verbosity

/-- Where `performance-gate` finds the summary. -/
inductive SummaryPlace where
  | directory (path : Path)
  | file (path : Path)

/-- What `performance-gate` is asked to do. -/
structure GateArguments where
  place : SummaryPlace
  overrides : Overrides
  verbosity : Verbosity

/-! ## Options -/

/-- The options of all commands. -/
def sharedOptions : List OptionSpec :=
  [ { name := "config", kind := .path },
    { name := "threshold", kind := .number },
    { name := "memory-threshold", kind := .number },
    { name := "failure-threshold", kind := .number },
    { name := "min-benchmarks", kind := .count },
    { name := "max-execution-time", kind := .number },
    { name := "max-memory-usage", kind := .number },
    { name := "max-failure-rate", kind := .number },
    { name := "quiet", kind := .flag, letter := some 'q' },
    { name := "verbose", kind := .flag, letter := some 'v' },
    { name := "help", kind := .flag, letter := some 'h' } ]

/-- The options of a command. -/
def Command.options : Command → List OptionSpec
  | analyzer =>
    [ { name := "input-dir", kind := .path },
      { name := "output-dir", kind := .path },
      { name := "baseline", kind := .path } ] ++ sharedOptions
  | regression =>
    [ { name := "baseline", kind := .path },
      { name := "current", kind := .path },
      { name := "output-dir", kind := .path },
      { name := "promote-baseline", kind := .flag } ] ++ sharedOptions
  | gate =>
    [ { name := "input-dir", kind := .path },
      { name := "summary", kind := .path } ] ++ sharedOptions

namespace GivenOptions

/-- The overrides among the options that were given. -/
def overrides (given : GivenOptions) : Overrides where
  config := given.path? "config"
  time := given.number? "threshold"
  memory := given.number? "memory-threshold"
  failureRate := given.number? "failure-threshold"
  minBenchmarks := given.count? "min-benchmarks"
  maxTime := given.number? "max-execution-time"
  maxMemory := given.number? "max-memory-usage"
  maxFailureRate := given.number? "max-failure-rate"

/-- How much to print. -/
def verbosity (given : GivenOptions) : Verbosity := ⟨given.has "quiet", given.has "verbose"⟩

/-- The path that an option has to be given. -/
def required (given : GivenOptions) (name : String) : Except UsageStop Path :=
  match given.path? name with
  | some path => .ok path
  | none => .error .missingRequired

end GivenOptions

/-! ## Arguments -/

/-- The arguments of `performance-analyzer`. -/
def AnalyzerArguments.read (words : List String) : Except UsageStop AnalyzerArguments := do
  let given ← OptionState.readAll Command.analyzer.options words
  return {
    inputDirectory := ← given.required "input-dir"
    outputDirectory := ← given.required "output-dir"
    baseline := given.path? "baseline"
    overrides := given.overrides
    verbosity := given.verbosity }

/-- The arguments of `performance-regression`. -/
def RegressionArguments.read (words : List String) : Except UsageStop RegressionArguments := do
  let given ← OptionState.readAll Command.regression.options words
  return {
    baseline := ← given.required "baseline"
    current := ← given.required "current"
    outputDirectory := given.path? "output-dir"
    promoteBaseline := given.has "promote-baseline"
    overrides := given.overrides
    verbosity := given.verbosity }

/-- The place of the summary: a directory or a file, and not both. -/
def SummaryPlace.ofOptions (directory file : Option Path) : Except UsageStop SummaryPlace :=
  match directory, file with
  | some _, some _ => .error .conflict
  | none, some path => .ok (.file path)
  | some path, none => .ok (.directory path)
  | none, none => .error .missingRequired

/-- The arguments of `performance-gate`. -/
def GateArguments.read (words : List String) : Except UsageStop GateArguments := do
  let given ← OptionState.readAll Command.gate.options words
  return {
    place := ← SummaryPlace.ofOptions (given.path? "input-dir") (given.path? "summary")
    overrides := given.overrides
    verbosity := given.verbosity }

end BenchGate
