import BenchGate.Results.Record

/-!
# Results

The results of a run come in two forms: a list of records, or the totals that an earlier run reduced
its records to. Any other value holds no results at all.
-/

namespace BenchGate

/-- Results that another run has already reduced. -/
structure Totals where
  /-- In milliseconds. -/
  averageTime : Binary64
  /-- In megabytes. -/
  averageMemory : Binary64
  successful : Nat
  total : Nat
  failed : Nat
  /-- Whether that run saw a regression. -/
  regressionDetected : Bool
  recommendations : List String

/-- The totals that an object holds. -/
def Totals.ofJson (v : Json) : Totals where
  averageTime := Json.toMeasure (v.get? "avg_execution_time")
  averageMemory := Json.toMeasure (v.get? "memory_usage")
  successful := Json.toCount (v.get? "successful_benchmarks")
  total := Json.toCount (v.get? "total_benchmarks")
  failed := Json.toCount (v.get? "failed_benchmarks")
  regressionDetected := Json.toFlag (v.get? "regression_detected")
  recommendations := Json.toTexts (v.get? "recommendations")

/-- Which run results belong to. -/
inductive Origin where
  /-- The run under assessment. -/
  | current
  /-- The run accepted before. -/
  | baseline
  deriving DecidableEq

/-- What results consist of. -/
inductive Content where
  | records (records : List Record)
  | totals (totals : Totals)
  | empty

/-- The results of a run. -/
structure Results where
  origin : Origin
  content : Content

namespace Results

/-- The results in a list of records. -/
def ofRecords (origin : Origin) (records : List Record) : Results := ⟨origin, .records records⟩

/-- The results that a JSON value holds: an array of records, an object of totals, or nothing. -/
def ofJson (origin : Origin) : Json → Results
  | .array elements => ofRecords origin (elements.map Record.ofJson)
  | .object fields => ⟨origin, .totals (Totals.ofJson (.object fields))⟩
  | _ => ⟨origin, .empty⟩

/-- The single records, if the results came as records. -/
def records (r : Results) : List Record :=
  match r.content with
  | .records records => records
  | _ => []

/-- The totals, if the results came as totals. -/
def totals? (r : Results) : Option Totals :=
  match r.content with
  | .totals totals => some totals
  | _ => none

/-- The number of benchmarks. -/
def total (r : Results) : Nat :=
  match r.content with
  | .records records => records.length
  | .totals totals => totals.total
  | .empty => 0

/-- The number of failed benchmarks, of which totals cannot claim more than there are benchmarks. -/
def failed (r : Results) : Nat :=
  match r.content with
  | .records records => records.countP fun record => !record.success
  | .totals totals => min totals.failed totals.total
  | .empty => 0

/-- Whether totals say that their run saw a regression. -/
def regressionDetected (r : Results) : Bool :=
  match r.content with
  | .totals totals => totals.regressionDetected
  | _ => false

end Results

end BenchGate
