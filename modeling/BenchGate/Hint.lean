import BenchGate.Regression
import BenchGate.Statistics

/-!
# Hints

Hints say what to work on: the run as a whole when it is above a ceiling, a failure rate above ten
percent, and every suite whose average time is above the ceiling.
-/

namespace BenchGate

/-- What to work on. -/
inductive Hint where
  | noResults
  | slowOperations (average : Binary64)
  | memoryUsage (average : Binary64)
  | highFailureRate (rate : Binary64)
  | slowSuite (suite : String) (average : Binary64)
  deriving DecidableEq

/-- The wording of a hint. -/
def Hint.message : Hint → String
  | noResults => "No benchmark results available for analysis"
  | slowOperations average => s!"Consider optimizing slow operations (avg: {average.fixed 2}ms)"
  | memoryUsage average => s!"Consider reducing memory usage (avg: {average.fixed 2}MB)"
  | highFailureRate rate => s!"High failure rate detected: {percentText rate}"
  | slowSuite suite average => s!"Optimize {suite} suite (avg: {average.fixed 2}ms)"

/-- The failure rate above which there is a hint, a tenth. -/
def highFailureRate : Binary64 := .nearest false 1 10

/-- The hints on suites, in their order. -/
def suiteHints (perSuite : List (String × SuiteFigures)) (ceiling : Binary64) : List Hint :=
  perSuite.filterMap fun (suite, statistics) =>
    if 0 < statistics.successful ∧ ceiling < statistics.averageTime
      then some (.slowSuite suite statistics.averageTime) else none

/-- The hints on a run. -/
def hintsFor (metrics : Metrics) (perSuite : List (String × SuiteFigures)) (ceilings : Ceilings) :
    List Hint :=
  if metrics.total = 0 then [.noResults]
  else
    (if 0 < metrics.successful ∧ ceilings.time < metrics.averageTime
      then [.slowOperations metrics.averageTime] else []) ++
    (if 0 < metrics.successful ∧ ceilings.memory < metrics.averageMemory
      then [.memoryUsage metrics.averageMemory] else []) ++
    (if highFailureRate < metrics.failureRate
      then [.highFailureRate metrics.failureRate] else []) ++
    suiteHints perSuite ceilings.time

end BenchGate
