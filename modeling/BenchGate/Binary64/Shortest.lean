import BenchGate.Decimal

/-!
# The shortest decimal number that reads back

A finite number prints as the decimal number with the fewest digits among all those that round to
it, and among those as the nearest one. The numbers that round to a magnitude form an interval that
reaches half way to the neighbouring grid points:

* below a power of two the grid is twice as fine, so the lower half is narrower there;
* the two ends round to the even neighbour, so they belong to even magnitudes only.

For one, two, … seventeen digits, `shortest` looks at the two points of that decimal grid around the
magnitude. When any point of a decimal grid lies in the interval, one of these two does, so the
first grid with a hit has the fewest digits.
-/

namespace BenchGate

-- Powers of natural numbers are those of `Nat`, whatever other instance is known; a literal
-- exponent needs its type for this.
attribute [local instance (high)] instPowNat

/-- What to print when two decimal numbers of the fewest digits are equally near. -/
inductive TieRule where
  /-- The one whose last digit is even. -/
  | toEven
  /-- The larger one. -/
  | up
  deriving DecidableEq

namespace Magnitude

/-- The lower end of the interval that rounds to a magnitude, in quarters of a unit. -/
def lowerEnd (x : Magnitude) : Nat :=
  let gap := spacing x.units
  if 1 < gap ∧ x.units = 2 ^ (52 : Nat) * gap then 4 * x.units - gap else 4 * x.units - 2 * gap

/-- The upper end of the interval that rounds to a magnitude, in quarters of a unit. -/
def upperEnd (x : Magnitude) : Nat := 4 * x.units + 2 * spacing x.units

/-- Whether `n / d` quarters of a unit round to the magnitude. -/
def Covers (x : Magnitude) (n d : Nat) : Prop :=
  if x.isEven then x.lowerEnd * d ≤ n ∧ n ≤ x.upperEnd * d
  else x.lowerEnd * d < n ∧ n < x.upperEnd * d

instance (x : Magnitude) (n d : Nat) : Decidable (x.Covers n d) := by
  unfold Covers
  exact inferInstance

/-- The position of the first digit: the least power of ten above the magnitude. -/
def decade (x : Magnitude) : Int :=
  if unitsInOne ≤ x.units then
    (Nat.toDigits 10 (x.units / unitsInOne)).length
  else
    1 - ((Nat.toDigits 10 ((unitsInOne - 1) / x.units)).length : Int)

/--
The point of the grid of multiples of `10 ^ exponent` that covers the magnitude, if one of the two
around it does. The nearer one wins, and `tie` decides in the middle.
-/
def onDecimalGrid (tie : TieRule) (x : Magnitude) (exponent : Int) : Option Decimal :=
  let scale := 10 ^ exponent.toNat
  let fraction := 10 ^ (-exponent).toNat
  let step := unitsInOne * scale
  let low := x.units * fraction / step
  let rest := x.units * fraction % step
  let covers (k : Nat) := x.Covers (4 * k * step) fraction
  let lowIsNearer := 2 * rest < step ∨ 2 * rest = step ∧ tie = .toEven ∧ low % 2 = 0
  if covers low ∧ (lowIsNearer ∨ ¬ covers (low + 1)) then some ⟨low, exponent⟩
  else if covers (low + 1) then some ⟨low + 1, exponent⟩
  else none

/-- The same number with no zero at the end of its coefficient. -/
def trimmed (d : Decimal) : Decimal :=
  if d.coefficient % 10 = 0 then ⟨d.coefficient / 10, d.exponent + 1⟩ else d

/-- The shortest decimal number that rounds to a magnitude other than zero. -/
def shortest (tie : TieRule) (x : Magnitude) : Decimal :=
  let grids := (List.range 17).map fun places : Nat => x.decade - 1 - places
  match grids.findSome? (x.onDecimalGrid tie) with
  | some d => trimmed d
  | none => ⟨x.units * 5 ^ (1074 : Nat), -1074⟩

end Magnitude

end BenchGate
