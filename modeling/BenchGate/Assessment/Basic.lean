import BenchGate.Assessment.Comparison
import BenchGate.Gate
import BenchGate.Hint
import BenchGate.Status

/-!
# Assessments

An assessment is all that is decided about the current results: the comparison with the baseline, if
there is one, the verdict of the gate, and the status. Whether a regression was detected is decided
by the comparison, or told by whoever has compared before.

A run is successful when the gate passes it and the run itself has not failed.
-/

namespace BenchGate

/-- All that is decided about a run. -/
structure Assessment where
  thresholds : Thresholds
  current : Metrics
  /-- The comparison with the baseline, if there is one. -/
  comparison : Option Comparison
  gate : GateVerdict
  /-- The number of failed benchmarks as the results give it. -/
  failed : Nat
  statistics : Statistics
  hints : List Hint

namespace Assessment

/-- The assessment of results of which it is known whether they have regressed. -/
def judge (results : Results) (comparison : Option Comparison) (regressionDetected : Bool)
    (thresholds : Thresholds) : Assessment :=
  let current := Metrics.ofResults results
  let statistics := Statistics.ofResults results current
  { thresholds
    current
    comparison
    gate := .ofMetrics current regressionDetected thresholds.gate
    failed := results.failed
    statistics
    hints := hintsFor current statistics.perSuite thresholds.gate }

/-- Assesses results, comparing them with the baseline if there is one. -/
def ofResults (results : Results) (baseline : Option Results) (thresholds : Thresholds) :
    Assessment :=
  let comparison := baseline.map fun baseline =>
    Comparison.of (.ofResults baseline) (.ofResults results) thresholds.regression
  let detected := match comparison with
    | some c => c.regression.detected
    | none => false
  judge results comparison detected thresholds

/-- Assesses results that were compared before. -/
def withFlag (results : Results) (regressionDetected : Bool) (thresholds : Thresholds) :
    Assessment :=
  judge results none regressionDetected thresholds

/-- Assesses results by what they say about themselves. -/
def ofReported (results : Results) (thresholds : Thresholds) : Assessment :=
  withFlag results results.regressionDetected thresholds

/-- Whether a regression was detected. -/
def regressionDetected (e : Assessment) : Bool := e.gate.regressionDetected

/-- How the run went. -/
def status (e : Assessment) : Status := .ofMetrics e.current e.regressionDetected

/-- The failure of the run itself, if it failed. -/
def failure? (e : Assessment) : Option RunFailure := e.status.failure?

/-- Whether the run is accepted. -/
def isAccepted (e : Assessment) : Bool := e.gate.passed && e.failure?.isNone

/-- What the comparison found; nothing without a baseline. -/
def findings (e : Assessment) : List Finding :=
  match e.comparison with
  | some c => c.regression.findings
  | none => []

/-- The failure of the run, the findings of the comparison, and the reasons of the gate. -/
def recommendations (e : Assessment) : List String :=
  e.failure?.toList.map RunFailure.message ++ e.findings.map Finding.message ++
    e.gate.reasons.map Reason.message

/-! ## The gate on the terminal -/

/-- The line that says that the gate passes a run. -/
def passLine : Line :=
  [⟨.plain, "  "⟩, ⟨.good, "PASS"⟩, ⟨.plain, ": All performance gates passed"⟩]

/-- A line that says why a run fails. -/
def failLine (why : String) : Line :=
  [⟨.plain, "  "⟩, ⟨.bad, "FAIL"⟩, ⟨.plain, s!": {why}"⟩]

/-- The verdict on a run: its own failure, or else that the gate passes it, then the reasons. -/
def verdictLines (verdict : GateVerdict) (failure : Option String) : List Line :=
  (match failure with
    | some why => [failLine why]
    | none => if verdict.passed then [passLine] else []) ++
  verdict.reasons.map fun reason => failLine reason.message

end Assessment

/-- A value that the gate checked, beside its ceiling. -/
def GateVerdict.ceilingLine (title unit : String) (value ceiling : Binary64) : Line :=
  plainLine s!"  {title}: {value.fixed 2}{unit} (max: {ceiling.fixed 1}{unit})"

/-- What the gate checked and its verdict, given a failure of the run itself. -/
def GateVerdict.lines (d : GateVerdict) (failed : Nat) (failure : Option String) : List Line :=
  [ plainLine "Checking performance gate...",
    ceilingLine "Execution time" "ms" d.metrics.averageTime d.ceilings.time,
    ceilingLine "Memory usage" "MB" d.metrics.averageMemory d.ceilings.memory,
    plainLine s!"  Failed benchmarks: {failed}/{d.metrics.total}",
    plainLine s!"  Regression detected: {d.regressionDetected}" ] ++
  Assessment.verdictLines d failure

/-- What the gate checked and its verdict. -/
def Assessment.gateLines (e : Assessment) : List Line :=
  e.gate.lines e.failed (e.failure?.map RunFailure.message)

end BenchGate
