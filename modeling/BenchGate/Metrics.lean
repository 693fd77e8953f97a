import BenchGate.Results.Basic

/-!
# Metrics

Every decision is taken on five numbers: the average time and memory of the successful benchmarks,
the share of failed ones, and two counts. Metrics are made by `Metrics.make` only, which confines
the share to `[0, 1]` and the successes to the total.
-/

namespace BenchGate

/-- What a run is judged by. -/
structure Metrics where
  /-- Of the successful benchmarks, in milliseconds. -/
  averageTime : Binary64
  /-- Of the successful benchmarks, in megabytes. -/
  averageMemory : Binary64
  /-- The share of failed benchmarks. -/
  failureRate : Binary64
  successful : Nat
  total : Nat
  deriving DecidableEq

namespace Metrics

/-- Metrics with the share and the successes confined to their ranges. -/
def make (averageTime averageMemory failureRate : Binary64) (successful total : Nat) : Metrics where
  averageTime := averageTime
  averageMemory := averageMemory
  failureRate := failureRate.clampToShare
  successful := min successful total
  total := total

/-- The metrics of a run in which nothing succeeded. -/
def allFailed (total : Nat) : Metrics := make 0 0 1 0 total

/-- The metrics of a run of which nothing is known. -/
def none : Metrics := make 0 0 0 0 0

/-- The metrics of a list of records. -/
def ofRecords (records : List Record) : Metrics :=
  let successes := records.filter Record.success
  if successes.isEmpty then allFailed records.length
  else
    make
      (Binary64.mean (successes.map Record.executionTime))
      (Binary64.mean (successes.map fun record => .ofNat record.memoryUsage) / bytesPerMegabyte)
      (Binary64.share (records.length - successes.length) records.length)
      successes.length
      records.length

/-- The metrics of totals, whose share of failures is taken from their counts. -/
def ofTotals (totals : Totals) : Metrics :=
  make totals.averageTime totals.averageMemory
    (.ofNat totals.failed / .ofNat (max totals.total 1))
    totals.successful totals.total

/-- The metrics of results of any shape. -/
def ofResults (results : Results) : Metrics :=
  match results.content with
  | .records records => ofRecords records
  | .totals totals => ofTotals totals
  | .empty => none

/-- Whether any benchmark failed. -/
def HasFailures (m : Metrics) : Prop := 0 < m.failureRate

instance (m : Metrics) : Decidable m.HasFailures :=
  inferInstanceAs (Decidable (0 < m.failureRate))

end Metrics

end BenchGate
