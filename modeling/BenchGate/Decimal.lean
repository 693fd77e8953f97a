import BenchGate.Binary64.Basic

/-!
# Decimal numbers

A decimal number is a coefficient and a power of ten. It stands between a binary64 number and its
text: printing chooses a decimal number and lays out its digits, reading collects the digits and
takes the nearest binary64 number.
-/

namespace BenchGate

-- Powers of natural numbers are those of `Nat`, whatever other instance is known.
attribute [local instance (high)] instPowNat

/-- The number `coefficient * 10 ^ exponent`. -/
structure Decimal where
  coefficient : Nat
  exponent : Int
  deriving DecidableEq

namespace Decimal

/-- The digits of the coefficient, the most significant one first. -/
def digits (d : Decimal) : List Char := Nat.toDigits 10 d.coefficient

/-- How many digits stand before the decimal point. Not positive when the number is below one. -/
def point (d : Decimal) : Int := d.digits.length + d.exponent

/-- The power of ten beyond which a coefficient of one digit is infinite, or zero, with room. -/
def farExponent : Nat := 400

/--
The nearest binary64 number. Exponents far outside the range of the finite numbers are decided
without computing the power of ten.
-/
def toBinary64 (negative : Bool) (d : Decimal) : Binary64 :=
  if d.coefficient = 0 then
    .zero negative
  else
    match d.exponent with
    | .ofNat e =>
      if farExponent < e then .infinity negative
      else .nearest negative (d.coefficient * 10 ^ e) 1
    | .negSucc e =>
      if d.digits.length + farExponent < e then .zero negative
      else .nearest negative d.coefficient (10 ^ (e + 1))

/-! ## Layout -/

private def zeros (n : Nat) : List Char := List.replicate n '0'

/-- Digits with a point among them, or zeros on the side where the point lies outside. -/
def plain (d : Decimal) : List Char :=
  if 0 ≤ d.exponent then d.digits ++ zeros d.exponent.toNat
  else if 0 < d.point then d.digits.take d.point.toNat ++ '.' :: d.digits.drop d.point.toNat
  else '0' :: '.' :: zeros (-d.point).toNat ++ d.digits

/-- One digit before the point, and a signed power of ten after `e`. -/
def scientific (d : Decimal) : List Char :=
  let power := d.point - 1
  let fraction := if d.digits.length ≤ 1 then [] else '.' :: d.digits.drop 1
  let sign := if power < 0 then '-' else '+'
  d.digits.take 1 ++ fraction ++ 'e' :: sign :: Nat.toDigits 10 power.natAbs

end Decimal

end BenchGate
