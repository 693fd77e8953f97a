import BenchGate.Json.Value

/-!
# Benchmark records

A record says what one benchmark measured, or that it failed. Records come from JSON and are read
leniently: any value is a record, and a field that is missing or malformed has its default.
-/

namespace BenchGate

/-- One executed benchmark. -/
structure Record where
  suite : String
  name : String
  /-- In milliseconds. -/
  executionTime : Binary64
  /-- In bytes. -/
  memoryUsage : Nat
  success : Bool
  /-- Why the benchmark failed, if it says so. -/
  error : Option String
  timestamp : String
  toolVersion : String
  platform : String

/-- The number of bytes in a megabyte. -/
def bytesPerMegabyte : Binary64 := 1048576

namespace Record

/-- The name of a suite or benchmark that has none. -/
def unnamed : String := "unknown"

/-- A record without an error and without metadata. -/
def basic (suite name : String) (executionTime : Binary64) (memoryUsage : Nat) (success : Bool) :
    Record where
  suite := suite
  name := name
  executionTime := executionTime
  memoryUsage := memoryUsage
  success := success
  error := none
  timestamp := ""
  toolVersion := ""
  platform := ""

/-- The memory usage in megabytes. -/
def memoryMegabytes (r : Record) : Binary64 := .ofNat r.memoryUsage / bytesPerMegabyte

/--
A piece of metadata: the text of the first accepted key that has one, at the top of the record or
else among its measurements.
-/
def metadata (record : Json) (measurements : Option Json) (keys : List String) : String :=
  let text? (key : String) : Option String :=
    match Json.toText? (record.get? key) with
    | some text => some text
    | none => Json.toText? (measurements >>= Json.get? key)
  (keys.findSome? text?).getD ""

/-- The record that a JSON value holds. Anything but an object is a failed record without a name. -/
def ofJson (v : Json) : Record :=
  let measurements := v.get? "metrics"
  let success := Json.toFlag (v.get? "success")
  { suite := (Json.toText? (v.get? "suite")).getD unnamed
    name := (Json.toText? (v.get? "name")).getD unnamed
    executionTime := Json.toMeasure (measurements >>= Json.get? "executionTime")
    memoryUsage := Json.toCount (measurements >>= Json.get? "memoryUsage")
    success
    error := if success then none else Json.toText? (v.get? "error")
    timestamp := metadata v measurements ["timestamp"]
    toolVersion := metadata v measurements ["leanVersion", "toolVersion"]
    platform := metadata v measurements ["platform"] }

end Record

end BenchGate
