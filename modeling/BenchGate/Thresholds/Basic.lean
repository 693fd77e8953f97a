import BenchGate.Binary64.Text

/-!
# Thresholds

A run is measured against two sets of thresholds: **tolerances** bound how much worse than the
baseline it may be, **ceilings** bound it on their own. `Thresholds.verify` accepts tolerances and
ceilings that are finite and not negative, and a ceiling on failures that is a share.
-/

namespace BenchGate

/-- How much worse than the baseline a run may be. -/
structure Tolerances where
  /-- Of the execution time, in percent. -/
  time : Binary64
  /-- Of the memory usage, in percent. -/
  memory : Binary64
  /-- Of the failure rate, in percentage points. -/
  failureRate : Binary64
  /-- The least number of successful benchmarks that can be compared. -/
  minBenchmarks : Nat
  deriving DecidableEq

/-- How bad a run may be on its own. -/
structure Ceilings where
  /-- Of the average execution time, in milliseconds. -/
  time : Binary64
  /-- Of the average memory usage, in megabytes. -/
  memory : Binary64
  /-- Of the share of failed benchmarks. -/
  failureRate : Binary64
  deriving DecidableEq

/-- Everything that a run is measured against. -/
structure Thresholds where
  regression : Tolerances
  gate : Ceilings
  deriving DecidableEq

/-- Ten percent of time, fifteen of memory, five points of failures, from five benchmarks on. -/
def Tolerances.standard : Tolerances where
  time := 10
  memory := 15
  failureRate := 5
  minBenchmarks := 5

/-- A second, a hundred megabytes, and no failure. -/
def Ceilings.standard : Ceilings where
  time := 1000
  memory := 100
  failureRate := 0

/-- The thresholds where nothing else is asked for. -/
def Thresholds.standard : Thresholds where
  regression := .standard
  gate := .standard

/-- Why thresholds were refused. -/
inductive ThresholdFault where
  /-- A threshold is negative or not finite. -/
  | notAnAmount (name : String) (value : Binary64)
  /-- The ceiling on failures is no share. -/
  | notAShare (value : Binary64)
  deriving DecidableEq

/-- The wording of a fault. -/
def ThresholdFault.message : ThresholdFault → String
  | notAnAmount name value =>
    s!"The `{name}` threshold must be a finite non-negative number, found {value.display}"
  | notAShare value =>
    s!"The `maxFailureRate` threshold must be between 0.0 and 1.0, found {value.display}"

/-- A finite number that is not negative. -/
def IsAmount (x : Binary64) : Prop := x.isFinite = true ∧ ¬ x < 0

/-- A number from zero to one. -/
def IsShare (x : Binary64) : Prop := 0 ≤ x ∧ x ≤ 1

instance (x : Binary64) : Decidable (IsAmount x) :=
  inferInstanceAs (Decidable (x.isFinite = true ∧ ¬ x < 0))

instance (x : Binary64) : Decidable (IsShare x) :=
  inferInstanceAs (Decidable (0 ≤ x ∧ x ≤ 1))

namespace Thresholds

/-- The thresholds that are amounts, with their names, in the order in which they are checked. -/
def amounts (t : Thresholds) : List (String × Binary64) :=
  [ ("executionTimePercent", t.regression.time),
    ("memoryUsagePercent", t.regression.memory),
    ("failureRateIncreasePercent", t.regression.failureRate),
    ("maxExecutionTimeMs", t.gate.time),
    ("maxMemoryUsageMB", t.gate.memory) ]

/-- Refuses thresholds at the first one out of range. -/
def verify (t : Thresholds) : Except ThresholdFault Unit :=
  match t.amounts.find? fun amount => ¬ IsAmount amount.2 with
  | some (name, value) => .error (.notAnAmount name value)
  | none => if IsShare t.gate.failureRate then .ok () else .error (.notAShare t.gate.failureRate)

end Thresholds

end BenchGate
