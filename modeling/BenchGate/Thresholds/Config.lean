import BenchGate.Files.Text
import BenchGate.Json.Decoder
import BenchGate.Thresholds.Basic

/-!
# Thresholds from a file and from the command line

Thresholds are layered, and the last layer that names a threshold wins: the standard ones, a
configuration file, the overrides of the command line. What the file says has to be in range on its
own, and so has the result.
-/

namespace BenchGate

open Decoder

/-- The fields of the tolerances. -/
def Tolerances.fields : List (RecordField Tolerances) :=
  [ field "executionTimePercent" amount fun t x => { t with time := x },
    field "memoryUsagePercent" amount fun t x => { t with memory := x },
    field "failureRateIncreasePercent" amount fun t x => { t with failureRate := x },
    field "minBenchmarks" count fun t n => { t with minBenchmarks := n } ]

/-- The fields of the ceilings. -/
def Ceilings.fields : List (RecordField Ceilings) :=
  [ field "maxExecutionTimeMs" amount fun t x => { t with time := x },
    field "maxMemoryUsageMB" amount fun t x => { t with memory := x },
    field "maxFailureRate" amount fun t x => { t with failureRate := x } ]

/-- The fields of a configuration. -/
def Thresholds.fields : List (RecordField Thresholds) :=
  [ field "regression" (record "struct RegressionThresholds" Tolerances.fields .standard)
      fun t r => { t with regression := r },
    field "gate" (record "struct GateThresholds" Ceilings.fields .standard)
      fun t g => { t with gate := g } ]

/-- The thresholds that a text of configuration writes. -/
def Thresholds.decode (text : String) : Except DecodeError Thresholds :=
  Decoder.decode (record "struct Thresholds" Thresholds.fields .standard) text

/-- Why there are no thresholds to measure against. -/
inductive ThresholdsError where
  | reading (path : Path) (cause : TextError)
  | parsing (path : Path) (cause : DecodeError)
  | invalid (fault : ThresholdFault)

/-- The wording of an error. -/
def ThresholdsError.message : ThresholdsError → String
  | reading path cause => s!"Threshold file {path.quoted} reading: {cause.message}"
  | parsing path cause => s!"Threshold file {path.quoted} parsing: {cause.message}"
  | invalid fault => fault.message

namespace Thresholds

/-- Accepts thresholds that are in range. -/
def accept (t : Thresholds) : Except ThresholdsError Thresholds :=
  match t.verify with
  | .ok () => .ok t
  | .error fault => .error (.invalid fault)

/-- The thresholds that a configuration file writes, whether or not they are in range. -/
def readConfig (files : FileTree) (path : Path) : Except ThresholdsError Thresholds :=
  match files.readText path with
  | .error cause => .error (.reading path cause)
  | .ok text =>
    match Thresholds.decode text with
    | .error cause => .error (.parsing path cause)
    | .ok t => .ok t

/-- The thresholds of a configuration file. -/
def ofConfig (files : FileTree) (path : Path) : Except ThresholdsError Thresholds :=
  readConfig files path >>= accept

end Thresholds

/-! ## Overrides -/

/-- The thresholds that the command line names, and the configuration file if it names one. -/
structure Overrides where
  config : Option Path := none
  time : Option Binary64 := none
  memory : Option Binary64 := none
  failureRate : Option Binary64 := none
  minBenchmarks : Option Nat := none
  maxTime : Option Binary64 := none
  maxMemory : Option Binary64 := none
  maxFailureRate : Option Binary64 := none

namespace Overrides

/-- Thresholds with the named ones overwritten. -/
def onto (o : Overrides) (t : Thresholds) : Thresholds where
  regression :=
    { time := o.time.getD t.regression.time
      memory := o.memory.getD t.regression.memory
      failureRate := o.failureRate.getD t.regression.failureRate
      minBenchmarks := o.minBenchmarks.getD t.regression.minBenchmarks }
  gate :=
    { time := o.maxTime.getD t.gate.time
      memory := o.maxMemory.getD t.gate.memory
      failureRate := o.maxFailureRate.getD t.gate.failureRate }

/-- The thresholds under the overrides: the standard ones or those of the configuration file. -/
def base (o : Overrides) (files : FileTree) : Except ThresholdsError Thresholds :=
  match o.config with
  | none => .ok .standard
  | some path => Thresholds.ofConfig files path

/-- The thresholds to measure against. -/
def thresholds (o : Overrides) (files : FileTree) : Except ThresholdsError Thresholds := do
  let t ← o.base files
  (o.onto t).accept

end Overrides

end BenchGate
