import BenchGate.Regression

/-!
# The gate

The gate holds the metrics of a run against the ceilings and rejects it when a regression was
detected. Every check is made, so all reasons for a rejection are given at once. The failure rate of
a run without benchmarks is not checked.
-/

namespace BenchGate

/-- Why the gate rejects a run. -/
inductive Reason where
  | tooSlow (average ceiling : Binary64)
  | tooMuchMemory (average ceiling : Binary64)
  | tooManyFailures (rate ceiling : Binary64)
  | regression
  deriving DecidableEq

/-- The wording of a reason. -/
def Reason.message : Reason → String
  | tooSlow average ceiling =>
    s!"Average execution time {average.fixed 2}ms exceeds threshold {ceiling.fixed 1}ms"
  | tooMuchMemory average ceiling =>
    s!"Average memory usage {average.fixed 2}MB exceeds threshold {ceiling.fixed 1}MB"
  | tooManyFailures rate ceiling =>
    s!"Failure rate {percentText rate} exceeds threshold {percentText ceiling}"
  | regression => "Performance regression detected"

/-- The verdict of the gate, with all that it was reached on. -/
structure GateVerdict where
  /-- In the order time, memory, failure rate, regression. -/
  reasons : List Reason
  metrics : Metrics
  regressionDetected : Bool
  ceilings : Ceilings
  deriving DecidableEq

namespace GateVerdict

/-- Whether there is no reason to reject the run. -/
def passed (d : GateVerdict) : Bool := d.reasons.isEmpty

/-- Holds a run against the ceilings. -/
def ofMetrics (metrics : Metrics) (regressionDetected : Bool) (ceilings : Ceilings) :
    GateVerdict where
  reasons :=
    (if ceilings.time < metrics.averageTime
      then [.tooSlow metrics.averageTime ceilings.time] else []) ++
    (if ceilings.memory < metrics.averageMemory
      then [.tooMuchMemory metrics.averageMemory ceilings.memory] else []) ++
    (if 0 < metrics.total ∧ ceilings.failureRate < metrics.failureRate
      then [.tooManyFailures metrics.failureRate ceilings.failureRate] else []) ++
    (if regressionDetected then [.regression] else [])
  metrics := metrics
  regressionDetected := regressionDetected
  ceilings := ceilings

end GateVerdict

end BenchGate
