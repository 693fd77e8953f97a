import Std.Data.ExtTreeMap
import BenchGate.Metrics

/-!
# Statistics

Statistics describe the current results for reports; no decision uses them. One pass over the
records counts what each suite has, in a map that is kept in increasing order of the names. The
suites, platforms and tool versions that occur are listed once each, in increasing order of their
bytes.
-/

namespace BenchGate

/-- The texts that occur in a list, once each, in increasing order. -/
def distinctSorted (texts : List String) : List String :=
  texts.eraseDups.mergeSort fun s t => decide (s ≤ t)

/-- The statistics of one suite. -/
structure SuiteFigures where
  total : Nat
  successful : Nat
  /-- The share of successful benchmarks. -/
  successRate : Binary64
  /-- Of the successful benchmarks, in milliseconds. -/
  averageTime : Binary64
  deriving DecidableEq

/-- What has been counted of one suite. -/
structure SuiteCount where
  total : Nat := 0
  successful : Nat := 0
  /-- The times of the successful benchmarks, in their order. -/
  times : Array Binary64 := #[]

namespace SuiteCount

/-- Counts one more record. -/
def add (count : SuiteCount) (record : Record) : SuiteCount :=
  if record.success then
    { total := count.total + 1
      successful := count.successful + 1
      times := count.times.push record.executionTime }
  else
    { count with total := count.total + 1 }

/-- The statistics of a suite of which every record has been counted. -/
def figures (count : SuiteCount) : SuiteFigures where
  total := count.total
  successful := count.successful
  successRate := .share count.successful count.total
  averageTime := .mean count.times.toList

end SuiteCount

/-- The statistics of a run. -/
structure Statistics where
  total : Nat
  successful : Nat
  failed : Nat
  /-- The share of successful benchmarks. -/
  successRate : Binary64
  /-- In milliseconds. -/
  averageTime : Binary64
  /-- In megabytes. -/
  averageMemory : Binary64
  platforms : List String
  toolVersions : List String
  /-- The statistics of each suite, in increasing order of the names. -/
  perSuite : List (String × SuiteFigures)
  deriving DecidableEq

namespace Statistics

/-- Counts one more record for its suite, which may be a new one. -/
def countIn (counts : Std.ExtTreeMap String SuiteCount) (record : Record) :
    Std.ExtTreeMap String SuiteCount :=
  counts.alter record.suite fun count? => some ((count?.getD {}).add record)

/-- What there is to count of each suite. -/
def countSuites (records : List Record) : Std.ExtTreeMap String SuiteCount :=
  records.foldl countIn ∅

/-- The statistics of results whose metrics are known. -/
def ofResults (results : Results) (metrics : Metrics) : Statistics :=
  let records := results.records
  let failed := results.failed
  let successful := match results.totals? with
    | some _ => metrics.successful
    | none => metrics.total - failed
  let values (field : Record → String) := distinctSorted ((records.map field).filter (· ≠ ""))
  { total := metrics.total
    successful
    failed
    successRate := Binary64.share successful metrics.total
    averageTime := metrics.averageTime
    averageMemory := metrics.averageMemory
    platforms := values Record.platform
    toolVersions := values Record.toolVersion
    perSuite := (countSuites records).toList.map fun (suite, count) => (suite, count.figures) }

/-- The names of the suites. -/
def suites (s : Statistics) : List String := s.perSuite.map Prod.fst

end Statistics

end BenchGate
