/-!
# Rounding a quotient to a whole number

Every inexact step of the analyzer, whether it computes with 53 significant bits or prints two
decimals, rounds an exact quotient of natural numbers the same way: to the nearest whole number,
and from the exact middle to the even one.
-/

namespace BenchGate

/-- The whole number nearest to `n / d`; from the exact middle, the even neighbour. -/
def nearestWhole (n d : Nat) : Nat :=
  let q := n / d
  let r := n % d
  if 2 * r < d then q else if d < 2 * r then q + 1 else q + q % 2

theorem div_le_nearestWhole (n d : Nat) : n / d ≤ nearestWhole n d := by
  unfold nearestWhole
  dsimp only
  split
  · exact Nat.le_refl _
  · split
    · exact Nat.le_succ _
    · exact Nat.le_add_right _ _

theorem nearestWhole_le (n d : Nat) : nearestWhole n d ≤ n / d + 1 := by
  unfold nearestWhole
  dsimp only
  split
  · exact Nat.le_succ _
  · split
    · exact Nat.le_refl _
    · have := Nat.mod_lt (n / d) (show 0 < 2 by decide)
      omega

/-- A whole quotient is its own nearest number. -/
theorem nearestWhole_mul (k : Nat) {d : Nat} (hd : 0 < d) : nearestWhole (k * d) d = k := by
  unfold nearestWhole
  dsimp only
  rw [Nat.mul_div_cancel k hd, Nat.mul_mod_left, if_pos (by omega)]

end BenchGate
