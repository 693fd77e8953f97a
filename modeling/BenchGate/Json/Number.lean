import BenchGate.Binary64.Reading
import BenchGate.Json.Error
import BenchGate.Json.Value

/-!
# Reading the numbers of a JSON text

A whole number that fits in 64 bits is read exactly. Any other numeral is read fast rather than to
the nearest binary64 number, in three roundings at most:

* its leading digits fill a **significand** as long as it stays below `2 ^ 64`; whole digits that no
  longer fit only raise the exponent, fraction digits that no longer fit are dropped;
* the significand becomes a binary64 number;
* that number is multiplied or divided by the power of ten, in two divisions when the power is below
  `10 ^ -308`.

The result can differ from the nearest number in the last bits.
-/

namespace BenchGate.Json

-- Powers of natural numbers are those of `Nat`, whatever other instance is known; a literal
-- exponent needs its type for this.
attribute [local instance (high)] instPowNat

/-- What reads a part of a text: its value and the rest, or the cause for stopping. -/
abbrev Reader (α : Type) := List Char → Except JsonError (α × List Char)

/-- The least number that a significand cannot hold. -/
def significandEnd : Nat := 2 ^ (64 : Nat)

/-- Appends digits to a significand while they fit, and counts those that do not. -/
def absorb (significand : Nat) : List Char → Nat × Nat
  | [] => (significand, 0)
  | c :: digits =>
    let longer := 10 * significand + (c.toNat - '0'.toNat)
    if longer < significandEnd then absorb longer digits
    else (significand, digits.length + 1)

/-- A power of ten, as a binary64 number. -/
def powerOfTen (n : Nat) : Binary64 := .ofNat (10 ^ n)

/-- The largest exponent whose power of ten is finite. -/
def maxPower : Nat := 308

/--
Divides by a power of ten. A significand divided twice by `10 ^ 308` is already zero, so further
divisions are left out.
-/
def divideByPower (x : Binary64) (n : Nat) : Binary64 :=
  if n ≤ maxPower then x / powerOfTen n
  else if n ≤ 2 * maxPower then x / powerOfTen maxPower / powerOfTen (n - maxPower)
  else 0

/-- A significand times a power of ten. -/
def scaled (significand : Nat) (exponent : Int) : Except JsonError Binary64 :=
  let x := Binary64.ofNat significand
  match exponent with
  | .ofNat n =>
    if significand = 0 then .ok 0
    else if n ≤ maxPower then
      let product := x * powerOfTen n
      if product.isFinite then .ok product else .error .numberOutOfRange
    else .error .numberOutOfRange
  | .negSucc n => .ok (divideByPower x (n + 1))

/-- The number of a numeral that has no fraction and no exponent, and whose digits all fit. -/
def ofInteger (negative : Bool) (n : Nat) : JsonNumber :=
  if ¬ negative then .natural n
  else if n = 0 ∨ 2 ^ (63 : Nat) < n then .binary (-.ofNat n)
  else .negative n

/-- The signed digits of an exponent, after its letter. -/
def readExponent : Reader Int := fun text =>
  let (negative, unsigned) := Binary64.splitSign text
  let (digits, rest) := spanDigits unsigned
  if unsigned.isEmpty then .error .endInValue
  else if digits.isEmpty then .error .badNumber
  else .ok (if negative then -(digitsToNat digits : Int) else digitsToNat digits, rest)

/-- The end of a numeral that is no exact integer: an optional exponent, then the scaling. -/
def readScaled (negative : Bool) (significand : Nat) (shift : Int) : Reader JsonNumber :=
  fun text => do
    let (exponent, rest) ← match text with
      | 'e' :: rest => readExponent rest
      | 'E' :: rest => readExponent rest
      | _ => pure (0, text)
    let x ← scaled significand (shift + exponent)
    return (.binary (if negative then -x else x), rest)

/-- A numeral whose first digit was found. -/
def readNumeral (negative : Bool) : Reader JsonNumber := fun text =>
  let (whole, rest) := spanDigits text
  let (significand, dropped) := absorb 0 whole
  if whole.head? = some '0' ∧ 1 < whole.length then .error .badNumber
  else match rest with
    | '.' :: rest =>
      let (fraction, rest) := spanDigits rest
      let (significand, lost) := absorb significand fraction
      if fraction.isEmpty then .error (if rest.isEmpty then .endInValue else .badNumber)
      else readScaled negative significand (dropped - (fraction.length - lost : Nat)) rest
    | 'e' :: _ => readScaled negative significand dropped rest
    | 'E' :: _ => readScaled negative significand dropped rest
    | _ =>
      if dropped = 0 then .ok (ofInteger negative significand, rest)
      else readScaled negative significand dropped rest

/-- A number: digits, after a minus sign or not. -/
def readNumber : Reader JsonNumber := fun text =>
  let (negative, unsigned) := match text with
    | '-' :: rest => (true, rest)
    | rest => (false, rest)
  match unsigned with
  | [] => .error .endInValue
  | c :: _ => if c.isDigit then readNumeral negative unsigned else .error .badNumber

end BenchGate.Json
