import BenchGate.Metrics

/-!
# The status of a run

One word says how a run went. Two of the words are failures of the run itself, whatever the gate
says: there was nothing to judge, or nothing succeeded.
-/

namespace BenchGate

/-- How a run went. -/
inductive Status where
  /-- Everything succeeded, without a regression. -/
  | pass
  /-- Some benchmarks failed, without a regression. -/
  | partly
  /-- The run has regressed. -/
  | regression
  /-- No benchmark succeeded. -/
  | failed
  /-- There are no benchmarks. -/
  | error
  deriving DecidableEq

/-- A failure of the run itself. -/
inductive RunFailure where
  | noResults
  | allFailed
  deriving DecidableEq

/-- The wording of a failure. -/
def RunFailure.message : RunFailure → String
  | noResults => "No benchmark results found"
  | allFailed => "All benchmarks failed"

namespace Status

/-- The status of a run with these metrics, in which a regression was detected or not. -/
def ofMetrics (m : Metrics) (regressionDetected : Bool) : Status :=
  if m.total = 0 then error
  else if m.successful = 0 then failed
  else if regressionDetected then regression
  else if m.HasFailures then partly
  else pass

/-- The word for a status. -/
def word : Status → String
  | pass => "PASS"
  | partly => "PARTIAL"
  | regression => "REGRESSION"
  | failed => "FAILED"
  | error => "ERROR"

/-- The failure that a status stands for, if it stands for one. -/
def failure? : Status → Option RunFailure
  | error => some .noResults
  | failed => some .allFailed
  | _ => none

end Status

end BenchGate
