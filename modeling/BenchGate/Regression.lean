import BenchGate.Metrics
import BenchGate.Thresholds.Basic

/-!
# Regressions

A run has regressed when its time, memory or failure rate is worse than the baseline's by more than
the tolerance, or when too few of its benchmarks succeeded to be compared at all. Changes that are
computed to be the tolerance pass, and so does any change against a baseline of zero.
-/

namespace BenchGate

/-- A share in percent, with one decimal. -/
def percentText (share : Binary64) : String := (share * 100).fixed 1 ++ "%"

/-- What a comparison with the baseline found. -/
inductive Finding where
  /-- Too few benchmarks succeeded. -/
  | tooFewBenchmarks (successful minimum : Nat)
  /-- The execution time rose beyond the tolerance. -/
  | slower (change tolerance : Binary64)
  /-- The memory usage rose beyond the tolerance. -/
  | moreMemory (change tolerance : Binary64)
  /-- The failure rate rose beyond the tolerance. -/
  | moreFailures (change tolerance : Binary64)
  /-- Nothing rose beyond its tolerance. -/
  | withinTolerances (time memory failureRate : Binary64) (tolerances : Tolerances)
  deriving DecidableEq

/-- The wording of a finding. -/
def Finding.message : Finding → String
  | tooFewBenchmarks successful minimum =>
    s!"Insufficient successful benchmarks: {successful} < {minimum}"
  | slower change tolerance =>
    s!"Execution time increased by {change.fixed 1}% (threshold: {tolerance.fixed 1}%)"
  | moreMemory change tolerance =>
    s!"Memory usage increased by {change.fixed 1}% (threshold: {tolerance.fixed 1}%)"
  | moreFailures change tolerance =>
    s!"Failure rate increased by {percentText change} (threshold: {tolerance.fixed 1}%)"
  | withinTolerances time memory failureRate tolerances =>
    "No significant performance regression detected (" ++
      s!"execution time {time.signedFixed 1}% vs {tolerances.time.fixed 1}%, " ++
      s!"memory usage {memory.signedFixed 1}% vs {tolerances.memory.fixed 1}%, " ++
      s!"failure rate {(failureRate * 100).signedFixed 1}% vs {tolerances.failureRate.fixed 1}%)"

/-- The outcome of a comparison with the baseline. -/
structure Regression where
  detected : Bool
  timeRegressed : Bool
  memoryRegressed : Bool
  failureRateRegressed : Bool
  /-- In percent of the baseline. -/
  timeChange : Binary64
  /-- In percent of the baseline. -/
  memoryChange : Binary64
  /-- As a difference of shares. -/
  failureRateChange : Binary64
  findings : List Finding
  deriving DecidableEq

/-- The signed change in percent of the baseline; zero when the baseline is not positive. -/
def percentChange (baseline current : Binary64) : Binary64 :=
  if 0 < baseline then (current - baseline) / baseline * 100 else 0

namespace Regression

/-- The outcome for a run with too few successful benchmarks. -/
def insufficient (successful minimum : Nat) : Regression where
  detected := true
  timeRegressed := false
  memoryRegressed := false
  failureRateRegressed := false
  timeChange := 0
  memoryChange := 0
  failureRateChange := 0
  findings := [.tooFewBenchmarks successful minimum]

/-- The findings of a comparison, in the order time, memory, failure rate. -/
def findingsOf (tolerances : Tolerances) (timeRegressed memoryRegressed failureRateRegressed : Bool)
    (time memory failureRate : Binary64) : List Finding :=
  let raised :=
    (if timeRegressed then [.slower time tolerances.time] else []) ++
    (if memoryRegressed then [.moreMemory memory tolerances.memory] else []) ++
    (if failureRateRegressed then [.moreFailures failureRate tolerances.failureRate] else [])
  if raised.isEmpty then [.withinTolerances time memory failureRate tolerances] else raised

/-- Compares a run with the baseline. -/
def between (baseline current : Metrics) (tolerances : Tolerances) : Regression :=
  if current.successful < tolerances.minBenchmarks then
    insufficient current.successful tolerances.minBenchmarks
  else
    let time := percentChange baseline.averageTime current.averageTime
    let memory := percentChange baseline.averageMemory current.averageMemory
    let failureRate := current.failureRate - baseline.failureRate
    let slower : Bool := tolerances.time < time
    let moreMemory : Bool := tolerances.memory < memory
    let moreFailures : Bool := tolerances.failureRate / 100 < failureRate
    { detected := slower || moreMemory || moreFailures
      timeRegressed := slower
      memoryRegressed := moreMemory
      failureRateRegressed := moreFailures
      timeChange := time
      memoryChange := memory
      failureRateChange := failureRate
      findings := findingsOf tolerances slower moreMemory moreFailures time memory failureRate }

end Regression

end BenchGate
