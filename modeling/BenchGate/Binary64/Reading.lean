import BenchGate.Decimal

/-!
# Reading a number from text

A number on the command line is an optional sign, then `inf`, `infinity` or `nan` in any case, or
digits with at most one point among them and an optional exponent. It stands for the nearest
binary64 number, however many digits it has.
-/

namespace BenchGate

-- Powers of natural numbers are those of `Nat`, whatever other instance is known; a literal
-- exponent needs its type for this.
attribute [local instance (high)] instPowNat

/-- The number that a list of digits writes. -/
def digitsToNat (digits : List Char) : Nat :=
  digits.foldl (fun n c => 10 * n + (c.toNat - '0'.toNat)) 0

/-- The digits at the start of a text, and what follows them. -/
def spanDigits (text : List Char) : List Char × List Char := text.span Char.isDigit

namespace Binary64

/-- An optional sign, and what follows it. -/
def splitSign : List Char → Bool × List Char
  | '-' :: rest => (true, rest)
  | '+' :: rest => (false, rest)
  | text => (false, text)

/-- The exponent at the end of a numeral: none, or a letter `e` and a signed number. -/
def readExponent? : List Char → Option Int
  | [] => some 0
  | c :: rest =>
    if c = 'e' ∨ c = 'E' then
      let (negative, digits) := splitSign rest
      if digits.isEmpty ∨ ¬ digits.all Char.isDigit then none
      else if negative then some (-(digitsToNat digits : Int))
      else some (digitsToNat digits)
    else none

/-- The digits after the point, if there is a point, and what follows them. -/
def spanFraction : List Char → List Char × List Char
  | '.' :: rest => spanDigits rest
  | text => ([], text)

/-- A numeral without its sign; at least one digit stands before or after the point. -/
def readDecimal? (text : List Char) : Option Decimal :=
  let (whole, rest) := spanDigits text
  let (fraction, rest) := spanFraction rest
  if whole.isEmpty ∧ fraction.isEmpty then none
  else (readExponent? rest).map fun exponent =>
    { coefficient := digitsToNat (whole ++ fraction), exponent := exponent - fraction.length }

/-- The number nearest to what a text writes, if it writes a number. -/
def read? (text : String) : Option Binary64 :=
  let (negative, unsigned) := splitSign text.toList
  let word := unsigned.map Char.toLower
  if word = "inf".toList ∨ word = "infinity".toList then some (infinity negative)
  else if word = "nan".toList then some nan
  else (readDecimal? unsigned).map (Decimal.toBinary64 negative)

end Binary64

/-- The count that a text of digits writes, after an optional `+`, if it is below `2 ^ 64`. -/
def readCount? (text : String) : Option Nat :=
  let digits := match text.toList with
    | '+' :: rest => rest
    | rest => rest
  if digits.isEmpty ∨ ¬ digits.all Char.isDigit then none
  else
    let n := digitsToNat digits
    if n < 2 ^ (64 : Nat) then some n else none

end BenchGate
