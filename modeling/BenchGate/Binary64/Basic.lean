import BenchGate.Rounding

/-!
# Numbers with 53 significant bits

Times, memory, rates and thresholds are binary64 numbers. A finite one is a sign and a whole number
of *units*, a unit being the smallest positive number, `2 ^ -1074`. Counting in units makes the
arithmetic exact natural arithmetic followed by one rounding:

* the representable magnitudes form a **grid**: `m * 2 ^ e` units with `m` below `2 ^ 53`, below
  `2 ^ 2098` units in all;
* `ofUnits` rounds any quotient of units to the nearest grid point, from the middle to the even
  one, and to infinity at the top;
* every operation is its exact value followed by `ofUnits`;
* the order compares signed counts of units, and nothing compares with `nan`.

Both zeros are kept, since a sum or a printed number shows which one it is.
-/

namespace BenchGate

-- Powers of natural numbers are those of `Nat`, whatever other instance is known; a literal
-- exponent needs its type for this.
attribute [local instance (high)] instPowNat

/-- The number of units in one. -/
def unitsInOne : Nat := 2 ^ (1074 : Nat)

/-- The number of units at which the finite numbers end. -/
def unitsAtTop : Nat := 2 ^ (2098 : Nat)

/-- A count of units that 53 significant bits can hold. -/
def OnGrid (units : Nat) : Prop :=
  units < unitsAtTop ∧ ∃ m e : Nat, m < 2 ^ (53 : Nat) ∧ units = m * 2 ^ e

/-- The absolute value of a finite number. -/
structure Magnitude where
  /-- The value, counted in units. -/
  units : Nat
  onGrid : OnGrid units
  deriving DecidableEq

/-- A binary64 number. -/
inductive Binary64 where
  /-- The result of an operation that has none. -/
  | nan
  /-- A result above every finite number. -/
  | infinity (negative : Bool)
  /-- A finite number; zero has a sign too. -/
  | finite (negative : Bool) (magnitude : Magnitude)
  deriving DecidableEq

/-! ## The grid -/

/-- The distance between the grid points around a count of units. -/
def spacing (units : Nat) : Nat := 2 ^ (Nat.log2 units - 52)

/-- The grid point nearest to `n / d` units, as if the grid had no top. -/
def toGrid (n d : Nat) : Nat :=
  nearestWhole n (d * spacing (n / d)) * spacing (n / d)

theorem div_spacing_lt (units : Nat) : units / spacing units < 2 ^ (53 : Nat) := by
  unfold spacing
  rw [Nat.div_lt_iff_lt_mul (Nat.two_pow_pos _), ← Nat.pow_add]
  have h : units < 2 ^ (Nat.log2 units + 1) := Nat.lt_log2_self
  refine Nat.lt_of_lt_of_le h (Nat.pow_le_pow_right (by decide) ?_)
  omega

/-- Rounding up past 53 bits lands on a power of two, which one bit can hold. -/
theorem toGrid_eq_mul_pow (n d : Nat) :
    ∃ m e : Nat, m < 2 ^ (53 : Nat) ∧ toGrid n d = m * 2 ^ e := by
  have hk : nearestWhole n (d * spacing (n / d)) ≤ 2 ^ (53 : Nat) := by
    refine Nat.le_trans (nearestWhole_le _ _) ?_
    rw [← Nat.div_div_eq_div_mul]
    exact div_spacing_lt (n / d)
  by_cases h : nearestWhole n (d * spacing (n / d)) < 2 ^ (53 : Nat)
  · exact ⟨_, Nat.log2 (n / d) - 52, h, rfl⟩
  · refine ⟨1, 53 + (Nat.log2 (n / d) - 52), by decide, ?_⟩
    have he : nearestWhole n (d * spacing (n / d)) = 2 ^ (53 : Nat) :=
      Nat.le_antisymm hk (Nat.le_of_not_lt h)
    unfold toGrid
    rw [he, Nat.one_mul, Nat.pow_add]
    rfl

namespace Magnitude

/-- Nothing. -/
def zero : Magnitude where
  units := 0
  onGrid := ⟨by unfold unitsAtTop; apply Nat.two_pow_pos, 0, 0, by decide, rfl⟩

/-- Whether the significant bits, read as a whole number, are even. -/
def isEven (x : Magnitude) : Bool := x.units / spacing x.units % 2 == 0

/-- The whole number of ones, with the fraction dropped. -/
def truncate (x : Magnitude) : Nat := x.units / unitsInOne

end Magnitude

namespace Binary64

/-- The number nearest to `n / d` units: infinite where the grid has ended. -/
def ofUnits (negative : Bool) (n d : Nat) : Binary64 :=
  if h : toGrid n d < unitsAtTop then
    finite negative ⟨toGrid n d, h, toGrid_eq_mul_pow n d⟩
  else
    infinity negative

/-- The number nearest to `n / d`. -/
def nearest (negative : Bool) (n d : Nat) : Binary64 := ofUnits negative (n * unitsInOne) d

/-- The number nearest to a count. -/
def ofNat (n : Nat) : Binary64 := nearest false n 1

instance (n : Nat) : OfNat Binary64 n := ⟨ofNat n⟩

/-- The zero of either sign. -/
def zero (negative : Bool) : Binary64 := finite negative Magnitude.zero

/-- Neither infinite nor `nan`. -/
def isFinite : Binary64 → Bool
  | finite _ _ => true
  | _ => false

/-! ## Arithmetic -/

/-- The opposite number; `nan` has no sign. -/
def neg : Binary64 → Binary64
  | nan => nan
  | infinity s => infinity (!s)
  | finite s x => finite (!s) x

/-- The signed count of units of a finite number. -/
def signedUnits (negative : Bool) (x : Magnitude) : Int :=
  if negative then -(x.units : Int) else x.units

/-- Addition. Opposite numbers add to the positive zero, two negative zeros to a negative one. -/
def add : Binary64 → Binary64 → Binary64
  | nan, _ => nan
  | _, nan => nan
  | infinity s, infinity t => if s = t then infinity s else nan
  | infinity s, finite _ _ => infinity s
  | finite _ _, infinity t => infinity t
  | finite s x, finite t y =>
    let sum := signedUnits s x + signedUnits t y
    if sum = 0 then zero (s && t) else ofUnits (decide (sum < 0)) sum.natAbs 1

/-- Subtraction: addition of the opposite. -/
def sub (x y : Binary64) : Binary64 := add x (neg y)

/-- Multiplication. -/
def mul : Binary64 → Binary64 → Binary64
  | nan, _ => nan
  | _, nan => nan
  | infinity s, infinity t => infinity (s != t)
  | infinity s, finite t y => if y.units = 0 then nan else infinity (s != t)
  | finite s x, infinity t => if x.units = 0 then nan else infinity (s != t)
  | finite s x, finite t y => ofUnits (s != t) (x.units * y.units) unitsInOne

/-- Division. Only zero by zero and infinity by infinity have no result. -/
def div : Binary64 → Binary64 → Binary64
  | nan, _ => nan
  | _, nan => nan
  | infinity _, infinity _ => nan
  | infinity s, finite t _ => infinity (s != t)
  | finite s _, infinity t => zero (s != t)
  | finite s x, finite t y =>
    if y.units = 0 then
      if x.units = 0 then nan else infinity (s != t)
    else
      ofUnits (s != t) (x.units * unitsInOne) y.units

instance : Neg Binary64 := ⟨neg⟩
instance : Add Binary64 := ⟨add⟩
instance : Sub Binary64 := ⟨sub⟩
instance : Mul Binary64 := ⟨mul⟩
instance : Div Binary64 := ⟨div⟩

/-! ## Order -/

/-- The place of a number in the order: signed units, with the infinities at either end. -/
def key : Binary64 → Int
  | nan => 0
  | infinity s => if s then -(unitsAtTop : Int) else unitsAtTop
  | finite s x => signedUnits s x

/-- Strictly below; false as soon as one side is `nan`. -/
def Below (x y : Binary64) : Prop := x ≠ nan ∧ y ≠ nan ∧ x.key < y.key

/-- Below or equal, the two zeros being equal; false as soon as one side is `nan`. -/
def AtMost (x y : Binary64) : Prop := x ≠ nan ∧ y ≠ nan ∧ x.key ≤ y.key

instance : LT Binary64 := ⟨Below⟩
instance : LE Binary64 := ⟨AtMost⟩

instance (x y : Binary64) : Decidable (x < y) :=
  inferInstanceAs (Decidable (x ≠ nan ∧ y ≠ nan ∧ x.key < y.key))

instance (x y : Binary64) : Decidable (x ≤ y) :=
  inferInstanceAs (Decidable (x ≠ nan ∧ y ≠ nan ∧ x.key ≤ y.key))

/-- Confines a number to `[0, 1]`, where `nan` counts as zero. -/
def clampToShare (x : Binary64) : Binary64 :=
  if x = nan then 0 else if x < 0 then 0 else if 1 < x then 1 else x

/-- The whole part of a number that is not negative, capped at `2 ^ 64 - 1`; zero otherwise. -/
def toCount : Binary64 → Nat
  | finite false x => min x.truncate (2 ^ (64 : Nat) - 1)
  | _ => 0

/-! ## Averages and shares -/

/-- The mean, summed from left to right; zero of no values. -/
def mean (values : List Binary64) : Binary64 :=
  if values.isEmpty then 0 else values.foldl (· + ·) 0 / ofNat values.length

/-- One count as a share of another; zero of an empty whole. -/
def share (part whole : Nat) : Binary64 :=
  if whole = 0 then 0 else ofNat part / ofNat whole

end Binary64

end BenchGate
