import BenchGate.Binary64.Shortest

/-!
# The texts of a number

A number is written in three ways:

* `numeral`, in JSON: the shortest digits that read back, always with a point or an exponent, plain
  from `0.00001` up to below `1e16`;
* `display`, in a complaint about a threshold: the shortest digits, never an exponent and no empty
  fraction;
* `fixed`, in reports: the exact value rounded to a number of decimals.
-/

namespace BenchGate.Binary64

-- Powers of natural numbers are those of `Nat`, whatever other instance is known.
attribute [local instance (high)] instPowNat

private def signText (negative : Bool) : String := if negative then "-" else ""

/-! ## In JSON -/

/-- The digits of a magnitude in JSON. -/
def magnitudeNumeral (x : Magnitude) : List Char :=
  if x.units = 0 then ['0', '.', '0']
  else
    let d := x.shortest .toEven
    if -5 < d.point ∧ d.point ≤ 16 then
      if 0 ≤ d.exponent then d.plain ++ ['.', '0'] else d.plain
    else d.scientific

/-- A finite number in JSON, which has no text for the others. -/
def numeral? : Binary64 → Option (List Char)
  | finite negative x => some (if negative then '-' :: magnitudeNumeral x else magnitudeNumeral x)
  | _ => none

/-! ## In complaints -/

/-- The name of a number that is not finite. -/
def nonFiniteName : Binary64 → String
  | infinity negative => signText negative ++ "inf"
  | _ => "NaN"

/-- The shortest digits, never with an exponent. -/
def display : Binary64 → String
  | finite negative x =>
    signText negative ++
      if x.units = 0 then "0" else String.ofList (x.shortest .up).plain
  | x => x.nonFiniteName

/-! ## In reports -/

/-- The exact value of a magnitude rounded to `places` decimals, with at least one. -/
def magnitudeFixed (places : Nat) (x : Magnitude) : String :=
  let scaled := nearestWhole (x.units * 10 ^ places) unitsInOne
  let fraction := Nat.toDigits 10 (scaled % 10 ^ places)
  let padding := List.replicate (places - fraction.length) '0'
  toString (scaled / 10 ^ places) ++ "." ++ String.ofList (padding ++ fraction)

/-- A number with a fixed count of decimals. The sign of zero is kept. -/
def fixed (places : Nat) : Binary64 → String
  | finite negative x => signText negative ++ magnitudeFixed places x
  | x => x.nonFiniteName

/-- A number with a fixed count of decimals and a sign in any case; `nan` has none. -/
def signedFixed (places : Nat) : Binary64 → String
  | finite false x => "+" ++ magnitudeFixed places x
  | infinity false => "+inf"
  | x => x.fixed places

end BenchGate.Binary64
