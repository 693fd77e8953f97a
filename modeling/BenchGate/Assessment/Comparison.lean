import BenchGate.Json.Writer
import BenchGate.Regression
import BenchGate.Terminal

/-!
# Comparisons

A comparison sets the metrics of a run beside those of the baseline. It is written as JSON and as a
text, and printed as a table; text and table share the lines of each metric.
-/

namespace BenchGate

/-- The metrics in JSON. -/
def Metrics.toJson (m : Metrics) : Json :=
  .object
    [ ("execution_time", .ofBinary64 m.averageTime),
      ("memory_usage", .ofBinary64 m.averageMemory),
      ("failure_rate", .ofBinary64 m.failureRate),
      ("successful_benchmarks", .ofNat m.successful),
      ("total_benchmarks", .ofNat m.total) ]

/-- A run beside the baseline. -/
structure Comparison where
  baseline : Metrics
  current : Metrics
  regression : Regression
  deriving DecidableEq

namespace Comparison

/-- Compares a run with the baseline. -/
def of (baseline current : Metrics) (tolerances : Tolerances) : Comparison :=
  ⟨baseline, current, .between baseline current tolerances⟩

/-- A comparison in JSON. -/
def toJson (c : Comparison) : Json :=
  .object
    [ ("baseline", c.baseline.toJson),
      ("current", c.current.toJson),
      ("changes", .object
        [ ("execution_time_percent", .ofBinary64 c.regression.timeChange),
          ("memory_usage_percent", .ofBinary64 c.regression.memoryChange),
          ("failure_rate_absolute", .ofBinary64 c.regression.failureRateChange) ]),
      ("regressions", .object
        [ ("execution_time", .bool c.regression.timeRegressed),
          ("memory_usage", .bool c.regression.memoryRegressed),
          ("failure_rate", .bool c.regression.failureRateRegressed) ]) ]

/-- The lines of one metric: a title, the two values and the change between them. -/
def metricLines (title baseline current : String) (change : Option String) : List Line :=
  [ [⟨.heading, title⟩],
    plainLine s!"  Baseline: {baseline}",
    plainLine s!"  Current:  {current}" ] ++
    (change.map fun text => plainLine s!"  Change:   {text}%").toList

/-- The values and changes of all metrics. -/
def allMetricLines (c : Comparison) : List Line :=
  metricLines "Execution Time:"
    s!"{c.baseline.averageTime.fixed 2}ms" s!"{c.current.averageTime.fixed 2}ms"
    (some (c.regression.timeChange.signedFixed 1)) ++ blankLine ::
  metricLines "Memory Usage:"
    s!"{c.baseline.averageMemory.fixed 2}MB" s!"{c.current.averageMemory.fixed 2}MB"
    (some (c.regression.memoryChange.signedFixed 1)) ++ blankLine ::
  metricLines "Failure Rate:"
    (percentText c.baseline.failureRate) (percentText c.current.failureRate)
    (some ((c.regression.failureRateChange * 100).signedFixed 1)) ++ blankLine ::
  metricLines "Benchmark Count:"
    s!"{c.baseline.successful}/{c.baseline.total} successful"
    s!"{c.current.successful}/{c.current.total} successful"
    none

/-- The line that sums a comparison up. -/
def overallStatus (c : Comparison) : Line :=
  plainLine <| "Overall Status: " ++
    if c.regression.detected then "REGRESSION DETECTED" else "NO REGRESSION"

/-- The lines of a comparison in words. -/
def report (c : Comparison) : List Line :=
  plainLine "Performance Comparison Report" :: plainLine (rule 28) :: blankLine ::
    c.overallStatus :: blankLine :: c.allMetricLines ++ blankLine :: plainLine "Recommendations:" ::
    c.regression.findings.map fun finding => plainLine s!"  - {finding.message}"

/-- A comparison in words. -/
def toText (c : Comparison) : String := renderLines false c.report

/-- A line that shows whether a flag is raised. -/
def flagLine (title : String) (flag : Bool) : Line :=
  [⟨.plain, s!"{title}: "⟩, if flag then ⟨.raised, "true"⟩ else ⟨.lowered, "false"⟩]

/-- A comparison on the terminal. -/
def table (c : Comparison) : List Line :=
  plainLine "Performance Comparison" :: plainLine (rule 30) :: c.allMetricLines ++
    [ blankLine,
      plainLine "Regression Analysis",
      plainLine (rule 20),
      flagLine "Regression detected" c.regression.detected,
      flagLine "Execution time regression" c.regression.timeRegressed,
      flagLine "Memory regression" c.regression.memoryRegressed,
      flagLine "Failure rate regression" c.regression.failureRateRegressed ]

end Comparison

end BenchGate
