import BenchGate.Binary64.Basic

/-!
# JSON values

Result files, summaries and reports are JSON. A number keeps how it was written: a whole number
that fits in 64 bits stays exact, everything else is a binary64 number. The fields of an object keep
the order of the text, and of several fields with one name the last one counts.
-/

namespace BenchGate

/-- A number in a JSON document. -/
inductive JsonNumber where
  /-- A whole number below `2 ^ 64` without a sign. -/
  | natural (n : Nat)
  /-- The opposite of a whole number from one to `2 ^ 63`. -/
  | negative (n : Nat)
  /-- Any other number. -/
  | binary (x : Binary64)
  deriving DecidableEq

/-- A JSON value. -/
inductive Json where
  | null
  | bool (b : Bool)
  | number (n : JsonNumber)
  | string (s : String)
  | array (elements : List Json)
  | object (fields : List (String × Json))

namespace JsonNumber

/-- The nearest binary64 number. -/
def toBinary64 : JsonNumber → Binary64
  | natural n => .ofNat n
  | negative n => -.ofNat n
  | binary x => x

/-- The number as a count: not below zero, without its fraction, capped at `2 ^ 64 - 1`. -/
def toCount : JsonNumber → Nat
  | natural n => n
  | negative _ => 0
  | binary x => x.toCount

end JsonNumber

namespace Json

/-- A measured number: `null` where there is no finite value to write. -/
def ofBinary64 (x : Binary64) : Json := if x.isFinite then number (.binary x) else null

/-- A count. -/
def ofNat (n : Nat) : Json := number (.natural n)

/-- A list of texts. -/
def ofStrings (texts : List String) : Json := array (texts.map string)

/-! ## Lenient access

Documents come from other programs. A field that is missing, of another type, negative or infinite
counts as the zero of its kind, and never stops the run. -/

/-- The last field of that name, if the value is an object that has one. -/
def get? (key : String) : Json → Option Json
  | object fields => fields.reverse.lookup key
  | _ => none

/-- The names of the fields, if the value is an object. -/
def keys? : Json → Option (List String)
  | object fields => some (fields.map Prod.fst)
  | _ => none

/-- A finite number that is not negative, else zero. -/
def toMeasure : Option Json → Binary64
  | some (number n) =>
    let x := n.toBinary64
    if x.isFinite ∧ 0 ≤ x then x else 0
  | _ => 0

/-- A whole number that is not negative, a fraction being dropped, else zero. -/
def toCount : Option Json → Nat
  | some (number n) => n.toCount
  | _ => 0

/-- A truth value, else `false`. -/
def toFlag : Option Json → Bool
  | some (bool b) => b
  | _ => false

/-- A text, if the value is one. -/
def toText? : Option Json → Option String
  | some (string s) => some s
  | _ => none

/-- The texts in an array, with everything else skipped. -/
def toTexts : Option Json → List String
  | some (array elements) => elements.filterMap fun element => toText? (some element)
  | _ => []

end Json

end BenchGate
