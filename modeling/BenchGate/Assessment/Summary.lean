import BenchGate.Assessment.Basic
import BenchGate.Timestamp

/-!
# Summaries

A summary is what other programs read about a run. It has the shape of totals, so a later run can
load it as results, gate it again, or take it for a baseline. A run in which nothing succeeded
counts as a regression there.
-/

namespace BenchGate

/-- What other programs read about a run. -/
structure Summary where
  status : Status
  averageTime : Binary64
  averageMemory : Binary64
  regressionDetected : Bool
  successful : Nat
  failed : Nat
  total : Nat
  recommendations : List String
  timestamp : Timestamp
  deriving DecidableEq

/-- The summary of an assessment, stamped with a time. -/
def Assessment.summary (e : Assessment) (timestamp : Timestamp) : Summary where
  status := e.status
  averageTime := e.current.averageTime
  averageMemory := e.current.averageMemory
  regressionDetected := e.regressionDetected || e.status = .failed
  successful := e.current.successful
  failed := e.failed
  total := e.current.total
  recommendations := e.recommendations
  timestamp := timestamp

namespace Summary

/-- A summary in JSON. -/
def toJson (s : Summary) : Json :=
  .object
    [ ("status", .string s.status.word),
      ("avg_execution_time", .ofBinary64 s.averageTime),
      ("memory_usage", .ofBinary64 s.averageMemory),
      ("regression_detected", .bool s.regressionDetected),
      ("successful_benchmarks", .ofNat s.successful),
      ("failed_benchmarks", .ofNat s.failed),
      ("total_benchmarks", .ofNat s.total),
      ("recommendations", .ofStrings s.recommendations),
      ("timestamp", .string s.timestamp.toText) ]

/-- The style of the word for a status. -/
def styleOf : Status → Style
  | .pass => .good
  | .partly => .caution
  | _ => .bad

/-- A summary on the terminal. -/
def lines (s : Summary) : List Line :=
  [ plainLine "Performance Analysis Summary",
    plainLine (rule 30),
    [⟨.plain, "Status: "⟩, ⟨styleOf s.status, s.status.word⟩],
    plainLine s!"Average execution time: {s.averageTime.fixed 2}ms",
    plainLine s!"Memory usage: {s.averageMemory.fixed 2}MB",
    plainLine s!"Regression detected: {s.regressionDetected}",
    plainLine s!"Failed benchmarks: {s.failed}/{s.total}" ] ++
  if s.recommendations.isEmpty then []
  else
    blankLine :: plainLine "Recommendations:" ::
      s.recommendations.map fun recommendation => plainLine s!"  - {recommendation}"

end Summary

end BenchGate
