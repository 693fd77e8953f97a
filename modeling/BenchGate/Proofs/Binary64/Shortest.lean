import BenchGate.Binary64.Shortest
import BenchGate.Proofs.Binary64.Order
import BenchGate.Proofs.Digits

/-!
# The shortest digits are at most seventeen

Every grid of `shortest` splits the decade of a magnitude into a power of ten of steps, so the point
below the magnitude has as many digits as the grid has places. On the seventeenth grid a step is at
most a `10 ^ 16`-th of the magnitude, while its interval reaches a `2 ^ 54`-th to either side: half
a step is less, and the nearer of the two points around the magnitude is always covered. So
`shortest` never gets to its last resort, and its coefficient is positive and at most `10 ^ 17`.
-/

namespace BenchGate

namespace Magnitude

attribute [local irreducible] unitsInOne unitsAtTop

/-- A step of the grid of multiples of `10 ^ exponent`, in units, times the denominator. -/
def gridStep (exponent : Int) : Nat := unitsInOne * 10 ^ exponent.toNat

/-- The denominator that makes a step of the grid a whole number of units. -/
def gridDenominator (exponent : Int) : Nat := 10 ^ (-exponent).toNat

theorem gridStep_pos (exponent : Int) : 0 < gridStep exponent :=
  Nat.mul_pos unitsInOne_pos (Nat.pow_pos (by decide))

theorem gridDenominator_pos (exponent : Int) : 0 < gridDenominator exponent :=
  Nat.pow_pos (by decide)

/-- From one on, the digits before the point are counted. -/
theorem decade_bounds_of_one_le {x : Magnitude} (hone : unitsInOne ≤ x.units) :
    gridStep (x.decade - 1) ≤ x.units * gridDenominator (x.decade - 1) ∧
      x.units * gridDenominator (x.decade - 1) < 10 * gridStep (x.decade - 1) := by
  have hq : 0 < x.units / unitsInOne := Nat.div_pos hone unitsInOne_pos
  obtain ⟨hlow, hhigh⟩ := toDigits_bounds hq
  have hlen : 0 < (Nat.toDigits 10 (x.units / unitsInOne)).length := Nat.length_toDigits_pos
  unfold decade gridStep gridDenominator
  rw [if_pos hone]
  generalize (Nat.toDigits 10 (x.units / unitsInOne)).length = len at *
  have hexp : ((len : Int) - 1).toNat = len - 1 := by omega
  have hneg : (-((len : Int) - 1)).toNat = 0 := by omega
  rw [hexp, hneg, Nat.pow_zero, Nat.mul_one]
  rw [Nat.le_div_iff_mul_le unitsInOne_pos] at hlow
  rw [Nat.div_lt_iff_lt_mul unitsInOne_pos] at hhigh
  refine ⟨by rwa [Nat.mul_comm], ?_⟩
  calc x.units < 10 ^ len * unitsInOne := hhigh
    _ = 10 ^ (len - 1 + 1) * unitsInOne := by rw [Nat.sub_add_cancel hlen]
    _ = 10 * (unitsInOne * 10 ^ (len - 1)) := by rw [Nat.pow_succ]; ac_rfl

/-- Below one, the zeros after the point are as many as the inverse has digits. -/
theorem decade_bounds_of_lt_one {x : Magnitude} (h : x.units ≠ 0) (hone : x.units < unitsInOne) :
    gridStep (x.decade - 1) ≤ x.units * gridDenominator (x.decade - 1) ∧
      x.units * gridDenominator (x.decade - 1) < 10 * gridStep (x.decade - 1) := by
  have hpos := Nat.pos_of_ne_zero h
  have hq : 0 < (unitsInOne - 1) / x.units := Nat.div_pos (by omega) hpos
  obtain ⟨hlow, hhigh⟩ := toDigits_bounds hq
  have hlen : 0 < (Nat.toDigits 10 ((unitsInOne - 1) / x.units)).length := Nat.length_toDigits_pos
  unfold decade gridStep gridDenominator
  rw [if_neg (Nat.not_le.mpr hone)]
  generalize (Nat.toDigits 10 ((unitsInOne - 1) / x.units)).length = len at *
  have hexp : (1 - (len : Int) - 1).toNat = 0 := by omega
  have hneg : (-(1 - (len : Int) - 1)).toNat = len := by omega
  rw [hexp, hneg, Nat.pow_zero, Nat.mul_one]
  rw [Nat.div_lt_iff_lt_mul hpos] at hhigh
  rw [Nat.le_div_iff_mul_le hpos] at hlow
  refine ⟨by rw [Nat.mul_comm]; omega, ?_⟩
  calc x.units * 10 ^ len = x.units * 10 ^ (len - 1 + 1) := by rw [Nat.sub_add_cancel hlen]
    _ = 10 * (10 ^ (len - 1) * x.units) := by rw [Nat.pow_succ]; ac_rfl
    _ < 10 * unitsInOne := by omega

/-- The first digit of a magnitude stands where `decade` says. -/
theorem decade_bounds {x : Magnitude} (h : x.units ≠ 0) :
    gridStep (x.decade - 1) ≤ x.units * gridDenominator (x.decade - 1) ∧
      x.units * gridDenominator (x.decade - 1) < 10 * gridStep (x.decade - 1) := by
  rcases Nat.lt_or_ge x.units unitsInOne with hlt | hge
  · exact decade_bounds_of_lt_one h hlt
  · exact decade_bounds_of_one_le hge

theorem gridDenominator_mul_gridStep (exponent : Int) (places : Nat) :
    gridDenominator (exponent - places) * gridStep exponent =
      10 ^ places * gridStep (exponent - places) * gridDenominator exponent := by
  unfold gridDenominator gridStep
  have hexp : (-(exponent - places)).toNat + exponent.toNat =
      places + (exponent - places).toNat + (-exponent).toNat := by omega
  have hpow := congrArg (10 ^ ·) hexp
  simp only [Nat.pow_add] at hpow
  calc 10 ^ (-(exponent - places)).toNat * (unitsInOne * 10 ^ exponent.toNat)
      = unitsInOne * (10 ^ (-(exponent - places)).toNat * 10 ^ exponent.toNat) := by ac_rfl
    _ = unitsInOne * (10 ^ places * 10 ^ (exponent - places).toNat * 10 ^ (-exponent).toNat) := by
        rw [hpow]
    _ = 10 ^ places * (unitsInOne * 10 ^ (exponent - places).toNat) * 10 ^ (-exponent).toNat := by
        ac_rfl

/-- With `places` more digits after the first, a magnitude is that many powers of ten of steps. -/
theorem grid_bounds {x : Magnitude} (h : x.units ≠ 0) (places : Nat) :
    10 ^ places * gridStep (x.decade - 1 - places) ≤
        x.units * gridDenominator (x.decade - 1 - places) ∧
      x.units * gridDenominator (x.decade - 1 - places) <
        10 ^ (places + 1) * gridStep (x.decade - 1 - places) := by
  obtain ⟨hlow, hhigh⟩ := decade_bounds h
  have hshift := gridDenominator_mul_gridStep (x.decade - 1) places
  have hden := gridDenominator_pos (x.decade - 1)
  have hden' := gridDenominator_pos (x.decade - 1 - places)
  generalize gridStep (x.decade - 1) = step at *
  generalize gridDenominator (x.decade - 1) = den at *
  generalize gridStep (x.decade - 1 - places) = step' at *
  generalize gridDenominator (x.decade - 1 - places) = den' at *
  refine ⟨Nat.le_of_mul_le_mul_right ?_ hden, Nat.lt_of_mul_lt_mul_right (a := den) ?_⟩
  · calc 10 ^ places * step' * den = den' * step := hshift.symm
      _ ≤ den' * (x.units * den) := Nat.mul_le_mul_left _ hlow
      _ = x.units * den' * den := by ac_rfl
  · calc x.units * den' * den = den' * (x.units * den) := by ac_rfl
      _ < den' * (10 * step) := Nat.mul_lt_mul_of_pos_left hhigh hden'
      _ = 10 * (den' * step) := by ac_rfl
      _ = 10 * (10 ^ places * step' * den) := by rw [hshift]
      _ = 10 ^ (places + 1) * step' * den := by
          rw [Nat.pow_succ]
          ac_rfl

/-! ## The points around a magnitude -/

theorem covers_of_lt {x : Magnitude} {n d : Nat} (hlow : x.lowerEnd * d < n)
    (hhigh : n < x.upperEnd * d) : x.Covers n d := by
  unfold Covers
  split
  · exact ⟨Nat.le_of_lt hlow, Nat.le_of_lt hhigh⟩
  · exact ⟨hlow, hhigh⟩

/-- Half a step below the magnitude is still inside its interval, also below a power of two. -/
theorem lowerEnd_mul_lt {x : Magnitude} {d step : Nat} (below : Nat) (hd : 0 < d)
    (hstep : 10 ^ 16 * step ≤ x.units * d) (hbelow : 2 * below ≤ step) (h : x.units ≠ 0) :
    x.lowerEnd * d < 4 * (x.units * d - below) := by
  have hgap : 0 < spacing x.units * d := Nat.mul_pos (Nat.two_pow_pos _) hd
  have hunits : x.units * d < 2 ^ 53 * (spacing x.units * d) := by
    rw [← Nat.mul_assoc]
    exact Nat.mul_lt_mul_of_pos_right (lt_mul_spacing x.units) hd
  have hpos : 0 < x.units * d := Nat.mul_pos (Nat.pos_of_ne_zero h) hd
  unfold lowerEnd
  dsimp only
  split
  · -- the gap below a power of two is half as large, but such a magnitude has one bit less
    rename_i hpower
    have hbits : x.units * d = 2 ^ 52 * (spacing x.units * d) := by
      rw [← Nat.mul_assoc, ← hpower.2]
    rw [Nat.sub_mul, Nat.mul_assoc]
    generalize x.units * d = units at *
    generalize spacing x.units * d = gap at *
    omega
  · rw [Nat.sub_mul, Nat.mul_assoc, Nat.mul_assoc]
    generalize x.units * d = units at *
    generalize spacing x.units * d = gap at *
    omega

/-- Half a step above the magnitude is still inside its interval. -/
theorem lt_upperEnd_mul {x : Magnitude} {d step : Nat} (above : Nat)
    (hstep : 10 ^ 16 * step ≤ x.units * d) (habove : 2 * above < step) (hd : 0 < d) :
    4 * (x.units * d + above) < x.upperEnd * d := by
  have hunits : x.units * d < 2 ^ 53 * (spacing x.units * d) := by
    rw [← Nat.mul_assoc]
    exact Nat.mul_lt_mul_of_pos_right (lt_mul_spacing x.units) hd
  unfold upperEnd
  rw [Nat.add_mul, Nat.mul_assoc, Nat.mul_assoc]
  generalize x.units * d = units at *
  generalize spacing x.units * d = gap at *
  omega

/-- On a grid that is fine enough, one of the two points around a magnitude is covered. -/
theorem covers_or_covers {x : Magnitude} (h : x.units ≠ 0) {d step : Nat} (hd : 0 < d)
    (hpos : 0 < step) (hstep : 10 ^ 16 * step ≤ x.units * d) :
    x.Covers (4 * (x.units * d / step) * step) d ∨
      x.Covers (4 * (x.units * d / step + 1) * step) d := by
  have hsplit := Nat.div_add_mod (x.units * d) step
  have hrest := Nat.mod_lt (x.units * d) hpos
  generalize x.units * d % step = rest at *
  generalize x.units * d / step = low at *
  have hpoint : 4 * low * step = 4 * (step * low) := by rw [Nat.mul_assoc, Nat.mul_comm low]
  have hnext : 4 * (low + 1) * step = 4 * (step * low + step) := by
    rw [Nat.mul_assoc, Nat.mul_comm (low + 1), Nat.mul_succ]
  rw [hpoint, hnext]
  -- the nearer of the two points is at most half a step away
  by_cases hnear : 2 * rest ≤ step
  · left
    have hbelow := lowerEnd_mul_lt rest hd hstep hnear h
    have habove := lt_upperEnd_mul 0 hstep (by omega) hd
    exact covers_of_lt (by omega) (by omega)
  · right
    have hbelow := lowerEnd_mul_lt 0 hd hstep (by omega) h
    have habove := lt_upperEnd_mul (step - rest) hstep (by omega) hd
    exact covers_of_lt (by omega) (by omega)

/-- A grid is hit by either of the two points around a magnitude. -/
theorem onDecimalGrid_isSome_of_or (tie : TieRule) {x : Magnitude} {exponent : Int}
    (h : x.Covers (4 * (x.units * gridDenominator exponent / gridStep exponent) *
        gridStep exponent) (gridDenominator exponent) ∨
      x.Covers (4 * (x.units * gridDenominator exponent / gridStep exponent + 1) *
        gridStep exponent) (gridDenominator exponent)) :
    (x.onDecimalGrid tie exponent).isSome = true := by
  unfold gridStep gridDenominator at h
  unfold onDecimalGrid
  dsimp only
  split
  · rfl
  · rename_i hfirst
    split
    · rfl
    · rename_i hsecond
      rcases h with hc | hc
      · exact absurd ⟨hc, .inr hsecond⟩ hfirst
      · exact absurd hc hsecond

/-- **Seventeen digits suffice.** -/
theorem onDecimalGrid_isSome (tie : TieRule) {x : Magnitude} (h : x.units ≠ 0) :
    (x.onDecimalGrid tie (x.decade - 1 - 16)).isSome = true :=
  onDecimalGrid_isSome_of_or tie (covers_or_covers h (gridDenominator_pos (x.decade - 1 - 16))
    (gridStep_pos (x.decade - 1 - 16)) (grid_bounds h 16).1)

/-- On a grid with `places` digits after the first, that is how many digits a point has. -/
theorem coefficient_bounds {tie : TieRule} {x : Magnitude} (h : x.units ≠ 0) {places : Nat}
    {d : Decimal} (hd : x.onDecimalGrid tie (x.decade - 1 - places) = some d) :
    0 < d.coefficient ∧ d.coefficient ≤ 10 ^ (places + 1) := by
  obtain ⟨hlow, hhigh⟩ := grid_bounds h places
  have hstep := gridStep_pos (x.decade - 1 - places)
  rw [← Nat.le_div_iff_mul_le hstep] at hlow
  rw [← Nat.div_lt_iff_lt_mul hstep] at hhigh
  have hpow : 0 < 10 ^ places := Nat.pow_pos (by decide)
  unfold onDecimalGrid at hd
  dsimp only at hd
  unfold gridStep gridDenominator at hlow hhigh
  generalize x.units * 10 ^ (-(x.decade - 1 - places)).toNat /
    (unitsInOne * 10 ^ (x.decade - 1 - places).toNat) = low at hlow hhigh hd
  rw [Nat.pow_succ] at hhigh ⊢
  split at hd
  · obtain rfl := Option.some.inj hd
    show 0 < low ∧ low ≤ _
    omega
  · split at hd
    · obtain rfl := Option.some.inj hd
      show 0 < low + 1 ∧ low + 1 ≤ _
      omega
    · exact absurd hd (by simp)

theorem trimmed_bounds {d : Decimal} {bound : Nat}
    (h : 0 < d.coefficient ∧ d.coefficient ≤ bound) :
    0 < (trimmed d).coefficient ∧ (trimmed d).coefficient ≤ bound := by
  unfold trimmed
  split
  · exact ⟨by dsimp only; omega, by dsimp only; omega⟩
  · exact h

/-- What is found first of the numbers below a bound comes from the least of them. -/
theorem findSome?_range_eq_some {α : Type} {f : Nat → Option α} {n : Nat} {a : α}
    (h : (List.range n).findSome? f = some a) :
    ∃ k < n, f k = some a ∧ ∀ j < k, f j = none := by
  obtain ⟨before, k, after, hrange, hk, hbefore⟩ := List.findSome?_eq_some_iff.mp h
  rw [List.range_eq_range', List.range'_eq_append_iff] at hrange
  obtain ⟨length, -, rfl, hcons⟩ := hrange
  obtain ⟨rfl, hpos, -⟩ := List.range'_eq_cons_iff.mp hcons.symm
  refine ⟨0 + length * 1, by omega, hk, fun j hj => hbefore j ?_⟩
  rw [List.mem_range'_1]
  omega

/-- The shortest digits are those of the first grid with a hit. -/
theorem exists_shortest (tie : TieRule) {x : Magnitude} (h : x.units ≠ 0) :
    ∃ (places : Nat) (d : Decimal), places < 17 ∧
      x.onDecimalGrid tie (x.decade - 1 - places) = some d ∧ x.shortest tie = trimmed d ∧
      ∀ fewer < places, x.onDecimalGrid tie (x.decade - 1 - fewer) = none := by
  unfold shortest
  dsimp only
  split
  · rename_i d hd
    rw [List.findSome?_map] at hd
    obtain ⟨places, hplaces, hgrid, hfewer⟩ := findSome?_range_eq_some hd
    exact ⟨places, d, hplaces, hgrid, rfl, hfewer⟩
  · -- the last of the grids would have been enough
    rename_i hnone
    have hmem : x.decade - 1 - 16 ∈
        (List.range 17).map fun places : Nat => x.decade - 1 - places :=
      List.mem_map.mpr ⟨16, by decide, rfl⟩
    have hsome := onDecimalGrid_isSome tie h
    rw [List.findSome?_eq_none_iff.mp hnone _ hmem] at hsome
    exact Bool.noConfusion hsome

/-- **The coefficient that is printed has at most seventeen digits**, up to `10 ^ 17` itself. -/
theorem shortest_coefficient_bounds (tie : TieRule) {x : Magnitude} (h : x.units ≠ 0) :
    0 < (x.shortest tie).coefficient ∧ (x.shortest tie).coefficient ≤ 10 ^ 17 := by
  obtain ⟨places, d, hplaces, hgrid, hshortest, -⟩ := exists_shortest tie h
  obtain ⟨hpos, hle⟩ := coefficient_bounds h hgrid
  have hpow : 10 ^ (places + 1) ≤ 10 ^ 17 := Nat.pow_le_pow_right (by decide) hplaces
  rw [hshortest]
  exact trimmed_bounds ⟨hpos, Nat.le_trans hle hpow⟩

end Magnitude

end BenchGate
