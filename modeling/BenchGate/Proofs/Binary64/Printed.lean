import Mathlib.Algebra.Order.Field.Power
import BenchGate.Proofs.Binary64.Shortest
import BenchGate.Proofs.Binary64.Values

/-!
# The printed digits stand for the number

The interval of a magnitude is said to hold what rounds to it, and it does, both of its ends
included: half way to the next grid point on either side, where the grid below a power of two is
twice as fine. So the digits that are printed round back to the number. Whatever is read from them
in another way is off by no more than the other way is.

A number that was itself rounded from a decimal number of a few digits is not printed with more. On
the grid of that decimal number one of the two points around the magnitude is covered, since it
lies between the decimal number and the magnitude.
-/

namespace BenchGate

attribute [local irreducible] unitsInOne unitsAtTop

/-! ## What rounds to a magnitude -/

/-- Up to half a step to either side, and from the middle only to the even one. -/
theorem nearestWhole_eq_iff {n d k : Nat} (hd : 0 < d) :
    nearestWhole n d = k ↔
      if k % 2 = 0 then 2 * (k * d) ≤ 2 * n + d ∧ 2 * n ≤ 2 * (k * d) + d
      else 2 * (k * d) < 2 * n + d ∧ 2 * n < 2 * (k * d) + d := by
  have hsplit := Nat.div_add_mod n d
  have hrest := Nat.mod_lt n hd
  unfold nearestWhole
  dsimp only
  rw [Nat.mul_comm d] at hsplit
  generalize n % d = rest at *
  generalize n / d = low at *
  rcases Nat.lt_trichotomy k low with hlt | rfl | hgt
  · -- more than a whole step below
    have hstep := Nat.mul_le_mul_right d (Nat.succ_le_of_lt hlt)
    rw [Nat.succ_mul] at hstep
    repeat' split
    all_goals omega
  · repeat' split
    all_goals omega
  · rcases Nat.lt_or_eq_of_le (Nat.succ_le_of_lt hgt) with hmore | rfl
    · -- more than a whole step above
      have hstep := Nat.mul_le_mul_right d (Nat.succ_le_of_lt hmore)
      rw [Nat.succ_mul, Nat.succ_mul] at hstep
      repeat' split
      all_goals omega
    · have hstep := Nat.succ_mul low d
      repeat' split
      all_goals omega

theorem log2_eq_of_bounds {n k : Nat} (hlow : 2 ^ k ≤ n) (hhigh : n < 2 ^ (k + 1)) :
    Nat.log2 n = k := by
  have hne : n ≠ 0 := by
    have := Nat.two_pow_pos k
    omega
  exact (Nat.log2_eq_iff hne).mpr ⟨hlow, hhigh⟩

namespace Magnitude

/-- The distance to the grid point below, if there is one. -/
def gapBelow (x : Magnitude) : Nat :=
  if 1 < spacing x.units ∧ x.units = 2 ^ 52 * spacing x.units then spacing x.units / 2
  else spacing x.units

theorem lowerEnd_eq (x : Magnitude) : x.lowerEnd = 4 * x.units - 2 * x.gapBelow := by
  unfold lowerEnd gapBelow
  dsimp only
  split
  · rename_i h
    -- a spacing above one is even
    have heven : spacing x.units % 2 = 0 := by
      unfold spacing at h ⊢
      generalize Nat.log2 x.units - 52 = k at *
      cases k with
      | zero => exact absurd h.1 (by decide)
      | succ k =>
          rw [Nat.pow_succ]
          omega
    omega
  · rfl

/--
The grid on one side of a magnitude, from the point `low` up to the point `high`. The magnitude is a
multiple of its gap, an even one if the last bit of the magnitude is zero.
-/
structure Side (x : Magnitude) (gap low high : Nat) : Prop where
  arePoints : IsGridPoint low ∧ IsGridPoint high
  spacing_eq : ∀ q, low ≤ q → q < high → spacing q = gap
  isMultiple : ∃ k, x.units = k * gap ∧ (k % 2 = 0 ↔ x.isEven = true)

/-- From `2 ^ 53` units on, a magnitude has its 53 bits. -/
theorem exists_bits {x : Magnitude} (h : 1 < spacing x.units) :
    ∃ k m, 0 < k ∧ spacing x.units = 2 ^ k ∧ x.units = m * 2 ^ k ∧ 2 ^ 52 ≤ m ∧ m < 2 ^ 53 := by
  obtain ⟨m, hm⟩ := spacing_dvd x.onGrid.isGridPoint
  have hk : 0 < Nat.log2 x.units - 52 := by
    refine Nat.pos_of_ne_zero fun h0 => ?_
    unfold spacing at h
    rw [h0] at h
    exact absurd h (by decide)
  have hne : x.units ≠ 0 := by
    intro h0
    rw [h0] at hk
    exact absurd hk (by decide)
  have hlow := Nat.log2_self_le hne
  have hhigh := lt_mul_spacing x.units
  have hsplit : 52 + (Nat.log2 x.units - 52) = Nat.log2 x.units := by omega
  unfold spacing at hm hhigh ⊢
  rw [← hsplit, Nat.pow_add] at hlow
  generalize Nat.log2 x.units - 52 = k at *
  have hpos := Nat.two_pow_pos k
  rw [Nat.mul_comm] at hm
  rw [hm] at hlow hhigh
  exact ⟨k, m, hk, rfl, hm, Nat.le_of_mul_le_mul_right hlow hpos,
    Nat.lt_of_mul_lt_mul_right hhigh⟩

theorem spacing_eq_pow {q k m : Nat} (hm : 2 ^ 52 ≤ m) (hm' : m < 2 ^ 53) (hlow : m * 2 ^ k ≤ q)
    (hhigh : q < (m + 1) * 2 ^ k) : spacing q = 2 ^ k := by
  have hlog : Nat.log2 q = 52 + k := by
    refine log2_eq_of_bounds ?_ ?_
    · rw [Nat.pow_add]
      exact Nat.le_trans (Nat.mul_le_mul_right _ hm) hlow
    · rw [Nat.add_right_comm, Nat.pow_add]
      exact Nat.lt_of_lt_of_le hhigh (Nat.mul_le_mul_right _ hm')
  unfold spacing
  rw [hlog, Nat.add_sub_cancel_left]

theorem isEven_iff {x : Magnitude} {m : Nat} (h : x.units = m * spacing x.units) :
    m % 2 = 0 ↔ x.isEven = true := by
  have hdiv : x.units / spacing x.units = m := Nat.div_eq_of_eq_mul_left (spacing_pos _) h
  unfold isEven
  rw [hdiv]
  simp

theorem spacing_eq_one_of_not_lt {x : Magnitude} (h : ¬ 1 < spacing x.units) :
    spacing x.units = 1 ∧ x.units < 2 ^ 53 := by
  have hone : spacing x.units = 1 := Nat.le_antisymm (Nat.not_lt.mp h) (spacing_pos _)
  have hlt := lt_mul_spacing x.units
  rw [hone] at hlt
  exact ⟨hone, by omega⟩

/-- Above a magnitude its own grid goes on to the next point. -/
theorem side_above (x : Magnitude) :
    x.Side (spacing x.units) x.units (x.units + spacing x.units) := by
  by_cases h : 1 < spacing x.units
  · obtain ⟨k, m, -, hgap, hunits, hm, hm'⟩ := exists_bits h
    have heven := isEven_iff (x := x) (m := m) (by rw [hgap]; exact hunits)
    rw [hgap, hunits, ← Nat.succ_mul]
    exact ⟨⟨isGridPoint_mul_pow (Nat.le_of_lt hm') k, isGridPoint_mul_pow hm' k⟩,
      fun q => spacing_eq_pow hm hm', m, hunits, heven⟩
  · -- the grid of single units
    obtain ⟨hone, hlt⟩ := spacing_eq_one_of_not_lt h
    have heven := isEven_iff (x := x) (m := x.units) (by rw [hone, Nat.mul_one])
    refine ⟨⟨x.onGrid.isGridPoint, ?_⟩, fun q hlow hhigh => ?_, x.units, ?_, heven⟩
    · have hpoint := isGridPoint_mul_pow (m := x.units + 1) hlt 0
      rwa [Nat.pow_zero, Nat.mul_one, ← hone] at hpoint
    · rw [hone] at hhigh ⊢
      obtain rfl : q = x.units := by omega
      exact hone
    · rw [hone, Nat.mul_one]

/-- Below a magnitude the grid is its own, or the one that is twice as fine. -/
theorem side_below (x : Magnitude) : x.Side x.gapBelow (x.units - x.gapBelow) x.units := by
  have hpoint := x.onGrid.isGridPoint
  by_cases h : 1 < spacing x.units
  · obtain ⟨k, m, hk, hgap, hunits, hm, hm'⟩ := exists_bits h
    have heven := isEven_iff (x := x) (m := m) (by rw [hgap]; exact hunits)
    by_cases hpower : m = 2 ^ 52
    · -- from a power of two on the spacing is larger than below
      obtain ⟨k, rfl⟩ := Nat.exists_eq_succ_of_ne_zero (Nat.ne_of_gt hk)
      have hbelow : x.gapBelow = 2 ^ k := by
        unfold gapBelow
        rw [if_pos ⟨h, by rw [hgap, hunits, hpower]⟩, hgap, Nat.pow_succ,
          Nat.mul_div_cancel _ (by decide)]
      have hunits' : x.units = 2 ^ 53 * 2 ^ k := by
        rw [hunits, hpower, Nat.pow_succ]
        omega
      have hlow : x.units - x.gapBelow = (2 ^ 53 - 1) * 2 ^ k := by
        rw [hbelow, hunits', Nat.sub_mul, Nat.one_mul]
      rw [hlow, hbelow]
      refine ⟨⟨isGridPoint_mul_pow (by decide) k, hpoint⟩, fun q hq hq' => ?_, 2 ^ 53, hunits', ?_⟩
      · refine spacing_eq_pow (by decide) (by decide) hq ?_
        rwa [Nat.sub_add_cancel (by decide), ← hunits']
      · rw [← heven, hpower]
        decide
    · have hbelow : x.gapBelow = 2 ^ k := by
        unfold gapBelow
        rw [if_neg ?_, hgap]
        rintro ⟨-, hunits'⟩
        rw [hgap, hunits] at hunits'
        exact hpower (Nat.eq_of_mul_eq_mul_right (Nat.two_pow_pos k) hunits')
      have hlow : x.units - x.gapBelow = (m - 1) * 2 ^ k := by
        rw [hbelow, hunits, Nat.sub_mul, Nat.one_mul]
      rw [hlow, hbelow]
      refine ⟨⟨isGridPoint_mul_pow (by omega) k, hpoint⟩, fun q hq hq' => ?_, m, hunits, heven⟩
      refine spacing_eq_pow (m := m - 1) (by omega) (by omega) hq ?_
      rwa [Nat.sub_add_cancel (by omega), ← hunits]
  · obtain ⟨hone, hlt⟩ := spacing_eq_one_of_not_lt h
    have heven := isEven_iff (x := x) (m := x.units) (by rw [hone, Nat.mul_one])
    have hbelow : x.gapBelow = 1 := by
      unfold gapBelow
      rw [if_neg fun hp => h hp.1, hone]
    rw [hbelow]
    refine ⟨⟨?_, hpoint⟩, fun q hq hq' => ?_, x.units, (Nat.mul_one _).symm, heven⟩
    · have hpoint := isGridPoint_mul_pow (m := x.units - 1) (by omega) 0
      rwa [Nat.pow_zero, Nat.mul_one] at hpoint
    · -- a smaller number has no larger spacing
      have hdvd := spacing_dvd_spacing (Nat.le_of_lt hq')
      rw [hone] at hdvd
      exact Nat.dvd_one.mp hdvd

/-- On a side of a magnitude, its multiple of the gap is the nearest one for half a gap. -/
theorem Side.toGrid_eq_iff {x : Magnitude} {gap low high n d : Nat} (h : x.Side gap low high)
    (hd : 0 < d) (hlow : low * d ≤ n) (hhigh : n < high * d) :
    toGrid n d = x.units ↔
      if x.isEven then 2 * (x.units * d) ≤ 2 * n + gap * d ∧ 2 * n ≤ 2 * (x.units * d) + gap * d
      else 2 * (x.units * d) < 2 * n + gap * d ∧ 2 * n < 2 * (x.units * d) + gap * d := by
  obtain ⟨k, hk, heven⟩ := h.isMultiple
  have hgap : spacing (n / d) = gap :=
    h.spacing_eq _ ((Nat.le_div_iff_mul_le hd).mpr hlow) ((Nat.div_lt_iff_lt_mul hd).mpr hhigh)
  have hpos : 0 < gap := by rw [← hgap]; exact spacing_pos _
  have hunits : k * (d * gap) = x.units * d := by
    rw [hk, Nat.mul_comm d, Nat.mul_assoc]
  have hnearest := nearestWhole_eq_iff (n := n) (k := k) (Nat.mul_pos hd hpos)
  unfold toGrid
  rw [hgap]
  conv_lhs => rw [hk]
  rw [Nat.mul_right_cancel_iff hpos, hnearest, hunits, Nat.mul_comm d]
  simp only [heven]

/-- Beyond the grid points on either side nothing rounds to a magnitude. -/
theorem toGrid_ne_of_lt {x : Magnitude} {w n d : Nat} (hd : 0 < d) (hw : IsGridPoint w)
    (h : n ≤ w * d ∧ w < x.units ∨ w * d ≤ n ∧ x.units < w) : toGrid n d ≠ x.units := by
  have hexact := toGrid_mul hw hd
  rcases h with ⟨hn, hlt⟩ | ⟨hn, hlt⟩
  · have hmono := toGrid_mono hd hd (Nat.mul_le_mul_right d hn)
    omega
  · have hmono := toGrid_mono hd hd (Nat.mul_le_mul_right d hn)
    omega

theorem gapBelow_pos (x : Magnitude) : 0 < x.gapBelow := by
  have hpos := spacing_pos x.units
  unfold gapBelow
  split
  · rename_i h
    omega
  · exact hpos

theorem gapBelow_le {x : Magnitude} (h : x.units ≠ 0) : x.gapBelow ≤ x.units := by
  obtain ⟨k, hk, -⟩ := x.side_below.isMultiple
  rcases Nat.eq_zero_or_pos k with rfl | hpos
  · exact absurd (hk.trans (Nat.zero_mul _)) h
  · conv_rhs => rw [hk]
    exact Nat.le_mul_of_pos_left _ hpos

/-- The interval of a magnitude goes half a gap down and half a step up. -/
theorem covers_iff_sides {x : Magnitude} {n d : Nat} (hd : 0 < d) :
    x.Covers (4 * n) d ↔
      if x.isEven then
        2 * (x.units * d) ≤ 2 * n + x.gapBelow * d ∧
          2 * n ≤ 2 * (x.units * d) + spacing x.units * d
      else
        2 * (x.units * d) < 2 * n + x.gapBelow * d ∧
          2 * n < 2 * (x.units * d) + spacing x.units * d := by
  have hupper : x.upperEnd * d = 4 * (x.units * d) + 2 * (spacing x.units * d) := by
    unfold upperEnd
    rw [Nat.add_mul, Nat.mul_assoc, Nat.mul_assoc]
  have hlower : x.lowerEnd * d = 4 * (x.units * d) - 2 * (x.gapBelow * d) := by
    rw [lowerEnd_eq, Nat.sub_mul, Nat.mul_assoc, Nat.mul_assoc]
  unfold Covers
  rw [hlower, hupper]
  split
  · omega
  · rename_i hodd
    -- zero is even
    have h0 : x.units ≠ 0 := fun h0 =>
      hodd ((isEven_iff (m := 0) (by rw [h0, Nat.zero_mul])).mp rfl)
    have hpos : 0 < x.units * d := Nat.mul_pos (Nat.pos_of_ne_zero h0) hd
    have hle : x.gapBelow * d ≤ x.units * d := Nat.mul_le_mul_right d (gapBelow_le h0)
    omega

/-- **The interval of a magnitude holds what rounds to it.** -/
theorem covers_iff {x : Magnitude} {n d : Nat} (hd : 0 < d) :
    x.Covers (4 * n) d ↔ toGrid n d = x.units := by
  have hstep : 0 < spacing x.units * d := Nat.mul_pos (spacing_pos _) hd
  have hgap : 0 < x.gapBelow * d := Nat.mul_pos x.gapBelow_pos hd
  rw [covers_iff_sides hd]
  rcases Nat.lt_or_ge n (x.units * d) with hlt | hge
  · have hlow : (x.units - x.gapBelow) * d = x.units * d - x.gapBelow * d := Nat.sub_mul _ _ _
    by_cases hnear : (x.units - x.gapBelow) * d ≤ n
    · rw [x.side_below.toGrid_eq_iff hd hnear hlt]
      split <;> omega
    · have hpos : 0 < x.units := Nat.pos_of_mul_pos_right (Nat.lt_of_le_of_lt (Nat.zero_le n) hlt)
      have hbelow : x.units - x.gapBelow < x.units := Nat.sub_lt hpos x.gapBelow_pos
      have hne := toGrid_ne_of_lt (x := x) hd x.side_below.arePoints.1
        (.inl ⟨Nat.le_of_lt (Nat.not_le.mp hnear), hbelow⟩)
      rw [iff_false_right hne]
      split <;> omega
  · have hhigh : (x.units + spacing x.units) * d = x.units * d + spacing x.units * d :=
      Nat.add_mul _ _ _
    by_cases hnear : n < (x.units + spacing x.units) * d
    · rw [x.side_above.toGrid_eq_iff hd hge hnear]
      split <;> omega
    · have hspacing := spacing_pos x.units
      have hne := toGrid_ne_of_lt (x := x) hd x.side_above.arePoints.2
        (.inr ⟨Nat.not_lt.mp hnear, by omega⟩)
      rw [iff_false_right hne]
      split <;> omega

/-! ## What is printed -/

/-- Equal quotients are covered alike. -/
theorem covers_congr {x : Magnitude} {n d n' d' : Nat} (hd : 0 < d) (hd' : 0 < d')
    (h : n * d' = n' * d) : x.Covers (4 * n) d ↔ x.Covers (4 * n') d' := by
  rw [covers_iff hd, covers_iff hd', toGrid_congr hd hd' h]

/-- A decimal number that rounds to a magnitude. -/
def CoversDecimal (x : Magnitude) (d : Decimal) : Prop :=
  x.Covers (4 * (d.coefficient * gridStep d.exponent)) (gridDenominator d.exponent)

/-- What is found on a grid is a point of it that rounds to the magnitude. -/
theorem onDecimalGrid_covers {tie : TieRule} {x : Magnitude} {exponent : Int} {d : Decimal}
    (h : x.onDecimalGrid tie exponent = some d) : d.exponent = exponent ∧ x.CoversDecimal d := by
  unfold CoversDecimal
  unfold onDecimalGrid at h
  dsimp only at h
  split at h
  · rename_i hlow
    obtain rfl := Option.some.inj h
    refine ⟨rfl, ?_⟩
    rw [← Nat.mul_assoc]
    exact hlow.1
  · split at h
    · rename_i hhigh
      obtain rfl := Option.some.inj h
      refine ⟨rfl, ?_⟩
      rw [← Nat.mul_assoc]
      exact hhigh
    · cases h

/-- The last digits move from the coefficient to the power of ten. -/
theorem shifted_mul (exponent : Int) (places k : Nat) :
    10 ^ places * k * gridStep (exponent - places) * gridDenominator exponent =
      k * gridStep exponent * gridDenominator (exponent - places) := by
  have hshift := gridDenominator_mul_gridStep exponent places
  calc 10 ^ places * k * gridStep (exponent - places) * gridDenominator exponent
      = k * (10 ^ places * gridStep (exponent - places) * gridDenominator exponent) := by ac_rfl
    _ = k * (gridDenominator (exponent - places) * gridStep exponent) := by rw [hshift]
    _ = k * gridStep exponent * gridDenominator (exponent - places) := by ac_rfl

theorem exponent_le_trimmed (d : Decimal) : d.exponent ≤ (trimmed d).exponent := by
  unfold trimmed
  split
  · exact Int.le_add_one (Int.le_refl _)
  · exact Int.le_refl _

theorem coversDecimal_trimmed {x : Magnitude} {d : Decimal} (h : x.CoversDecimal d) :
    x.CoversDecimal (trimmed d) := by
  unfold trimmed
  split
  · rename_i hzero
    have hshift := shifted_mul (d.exponent + 1) 1 (d.coefficient / 10)
    have hexponent : d.exponent + 1 - (1 : Nat) = d.exponent := Int.add_sub_cancel _ _
    have hcoefficient : 10 ^ 1 * (d.coefficient / 10) = d.coefficient := by omega
    rw [hexponent, hcoefficient] at hshift
    exact (covers_congr (gridDenominator_pos _) (gridDenominator_pos _) hshift).mp h
  · exact h

/-- **The digits that are printed round back to the number.** -/
theorem coversDecimal_shortest (tie : TieRule) {x : Magnitude} (h : x.units ≠ 0) :
    x.CoversDecimal (x.shortest tie) := by
  obtain ⟨places, d, -, hgrid, hshortest, -⟩ := exists_shortest tie h
  rw [hshortest]
  exact coversDecimal_trimmed (onDecimalGrid_covers hgrid).2

end Magnitude

/-! ## Values -/

open Binary64

/-- The value of a decimal number. -/
def Decimal.toRat (d : Decimal) : ℚ := d.coefficient * 10 ^ d.exponent

theorem Decimal.toRat_mul_gridDenominator (d : Decimal) :
    d.toRat * unitsInOne * Magnitude.gridDenominator d.exponent =
      (d.coefficient * Magnitude.gridStep d.exponent : Nat) := by
  have hten : (10 : ℚ) ^ d.exponent * 10 ^ (-d.exponent).toNat = 10 ^ d.exponent.toNat := by
    have hsplit : d.exponent + ((-d.exponent).toNat : Int) = (d.exponent.toNat : Int) := by omega
    rw [← zpow_natCast, ← zpow_natCast, ← zpow_add₀ (by norm_num), hsplit]
  unfold toRat Magnitude.gridDenominator Magnitude.gridStep
  push_cast
  rw [← hten]
  ring

namespace Magnitude

variable {x : Magnitude} {n d : Nat}

/-- A quotient of units that goes to a magnitude is rounded to it as a number. -/
theorem rounds_of_toGrid {v : ℚ} (hd : 0 < d) (hv : v * unitsInOne * d = n)
    (h : toGrid n d = x.units) : Rounds v (finite false x) := by
  refine ⟨nofun, n, d, hd, by rw [hv, Int.cast_natCast], ?_⟩
  rw [roundedKey_natCast]
  unfold roundedUnits
  rw [h, Nat.min_eq_left (Nat.le_of_lt x.onGrid.1)]
  rfl

/-- **A number is what its printed digits are rounded to.** -/
theorem rounds_shortest (tie : TieRule) (h : x.units ≠ 0) :
    Rounds (x.shortest tie).toRat (finite false x) :=
  rounds_of_toGrid (gridDenominator_pos _) (x.shortest tie).toRat_mul_gridDenominator
    ((covers_iff (gridDenominator_pos _)).mp (coversDecimal_shortest tie h))

/-! ## Numbers of a few digits -/

/-- Whatever lies between two quotients that go to one grid point goes there too. -/
theorem toGrid_eq_of_between {u m m' : Nat} (hd : 0 < d) (hm : toGrid m d = u)
    (hm' : toGrid m' d = u) (hlow : m ≤ n) (hhigh : n ≤ m') : toGrid n d = u := by
  have hfrom := toGrid_mono hd hd (Nat.mul_le_mul_right d hlow)
  have hto := toGrid_mono hd hd (Nat.mul_le_mul_right d hhigh)
  omega

/-- A grid with any point that rounds to a magnitude has one next to it. -/
theorem onDecimalGrid_isSome_of_covers (tie : TieRule) {k : Nat} {exponent : Int}
    (h : x.CoversDecimal ⟨k, exponent⟩) : (x.onDecimalGrid tie exponent).isSome = true := by
  have hden := gridDenominator_pos exponent
  have hstep := gridStep_pos exponent
  have hpoint := (covers_iff hden).mp h
  have hself := toGrid_mul x.onGrid.isGridPoint hden
  have hsplit := Nat.div_add_mod (x.units * gridDenominator exponent) (gridStep exponent)
  have hrest := Nat.mod_lt (x.units * gridDenominator exponent) hstep
  apply onDecimalGrid_isSome_of_or
  rw [Nat.mul_assoc, Nat.mul_assoc, covers_iff hden, covers_iff hden]
  dsimp only at hpoint
  generalize x.units * gridDenominator exponent / gridStep exponent = low at *
  rw [Nat.mul_comm] at hsplit
  -- the point next to the magnitude lies between it and the point that rounds to it
  rcases Nat.lt_or_ge low k with hlt | hge
  · right
    have hle := Nat.mul_le_mul_right (gridStep exponent) (Nat.succ_le_of_lt hlt)
    refine toGrid_eq_of_between hden hself hpoint ?_ hle
    rw [Nat.succ_mul]
    omega
  · left
    have hle := Nat.mul_le_mul_right (gridStep exponent) hge
    exact toGrid_eq_of_between hden hpoint hself hle (by omega)

theorem gridDenominator_cast_pos (exponent : Int) : (0 : ℚ) < gridDenominator exponent :=
  Nat.cast_pos.mpr (gridDenominator_pos exponent)

theorem toRat_finite (x : Magnitude) : (finite false x).toRat * unitsInOne = x.units := by
  rw [toRat_mul_unitsInOne]
  rfl

/-- A power of ten in units. -/
theorem gridStep_eq (exponent : Int) :
    (gridStep exponent : ℚ) = 10 ^ exponent * unitsInOne * gridDenominator exponent := by
  have hone := Decimal.toRat_mul_gridDenominator ⟨1, exponent⟩
  unfold Decimal.toRat at hone
  simp only [Nat.cast_one, one_mul] at hone
  exact hone.symm

/-- A magnitude has its first digit where `decade` says. -/
theorem decade_toRat_bounds (h : x.units ≠ 0) :
    10 ^ (x.decade - 1) ≤ (finite false x).toRat ∧ (finite false x).toRat < 10 ^ x.decade := by
  obtain ⟨hlow, hhigh⟩ := decade_bounds h
  have hscale : (0 : ℚ) < unitsInOne * gridDenominator (x.decade - 1) :=
    mul_pos unitsInOne_cast_pos (gridDenominator_cast_pos _)
  have hunits := x.toRat_finite
  have hten : (10 : ℚ) ^ x.decade = 10 * 10 ^ (x.decade - 1) := by
    rw [← zpow_one_add₀ (by norm_num)]
    congr 1
    omega
  have hlow' : (gridStep (x.decade - 1) : ℚ) ≤ x.units * gridDenominator (x.decade - 1) := by
    exact_mod_cast hlow
  have hhigh' : (x.units * gridDenominator (x.decade - 1) : ℚ) < 10 * gridStep (x.decade - 1) := by
    exact_mod_cast hhigh
  rw [gridStep_eq, ← hunits] at hlow' hhigh'
  constructor
  · refine le_of_mul_le_mul_right ?_ hscale
    linarith
  · refine lt_of_mul_lt_mul_right ?_ (le_of_lt hscale)
    rw [hten]
    linarith

theorem toRat_trimmed (d : Decimal) : (trimmed d).toRat = d.toRat := by
  unfold trimmed
  split
  · rename_i hzero
    have hcoefficient : 10 * (d.coefficient / 10) = d.coefficient := by omega
    have hten : (10 : ℚ) ^ (d.exponent + 1) = 10 ^ d.exponent * 10 :=
      zpow_add_one₀ (by norm_num) d.exponent
    unfold Decimal.toRat
    dsimp only
    rw [hten]
    conv_rhs => rw [← hcoefficient]
    push_cast
    ring
  · rfl

/-- A magnitude that `c / 10 ^ k` was rounded to, a decimal number of up to fifteen digits. -/
structure RoundedShort (c k : Nat) (x : Magnitude) : Prop where
  pos : 0 < c
  lt : c < 10 ^ 15
  places_le : k ≤ 21
  toGrid_eq : toGrid (c * unitsInOne) (10 ^ k) = x.units

namespace RoundedShort

variable {c k : Nat} (hx : RoundedShort c k x)
include hx

theorem rounds : Rounds (c / 10 ^ k) (finite false x) := by
  refine rounds_of_toGrid (Nat.pow_pos (by decide)) ?_ hx.toGrid_eq
  have hpow : (10 : ℚ) ^ k ≠ 0 := by positivity
  push_cast
  rw [mul_right_comm, div_mul_cancel₀ _ hpow]

theorem relative :
    (finite false x).toRat ≤ c / 10 ^ k * (1 + roundoff) ∧
      c / 10 ^ k ≤ (finite false x).toRat * (1 + roundoff) := by
  have hsmall : 10 ^ 21 * 2 ^ 52 ≤ unitsInOne := by
    unfold unitsInOne
    decide +kernel
  have hsmall' : (10 ^ 21 * 2 ^ 52 : ℚ) ≤ unitsInOne := by exact_mod_cast hsmall
  have hpow : (10 : ℚ) ^ k ≤ 10 ^ 21 := pow_le_pow_right₀ (by norm_num) hx.places_le
  have hone : (1 : ℚ) ≤ c := by exact_mod_cast hx.pos
  have hbits : (2 : ℚ) ^ 52 ≤ c / 10 ^ k * unitsInOne := by
    rw [div_mul_eq_mul_div, le_div_iff₀ (by positivity)]
    calc (2 : ℚ) ^ 52 * 10 ^ k ≤ 2 ^ 52 * 10 ^ 21 := by gcongr
      _ = 10 ^ 21 * 2 ^ 52 := mul_comm _ _
      _ ≤ unitsInOne := hsmall'
      _ = 1 * unitsInOne := (one_mul _).symm
      _ ≤ c * unitsInOne := by gcongr
  obtain ⟨habove, hbelow⟩ := hx.rounds.relative hbits
  exact ⟨habove, hbelow rfl⟩

theorem units_ne_zero : x.units ≠ 0 := by
  intro h0
  have hvalue := hx.relative.2
  have hunits := x.toRat_finite
  rw [h0, Nat.cast_zero, mul_eq_zero, or_iff_left (ne_of_gt unitsInOne_cast_pos)] at hunits
  rw [hunits, zero_mul] at hvalue
  have hone : (1 : ℚ) ≤ c := by exact_mod_cast hx.pos
  have hpos : (0 : ℚ) < c / 10 ^ k := by positivity
  linarith

/-- After rounding, the first digit is where it may be before, or one place lower. -/
theorem decade_bounds : -(k : Int) ≤ x.decade ∧ x.decade ≤ 15 - k := by
  obtain ⟨hlow, hhigh⟩ := decade_toRat_bounds hx.units_ne_zero
  obtain ⟨habove, hbelow⟩ := hx.relative
  have hone : (1 : ℚ) ≤ c := by exact_mod_cast hx.pos
  have hlast : (c : ℚ) ≤ 10 ^ 15 - 1 := by
    have hle : c + 1 ≤ 10 ^ 15 := hx.lt
    have : (c + 1 : ℚ) ≤ 10 ^ 15 := by exact_mod_cast hle
    linarith
  have hten : (10 : ℚ) ^ (15 - k : Int) = 10 ^ 15 / 10 ^ k := by
    rw [zpow_sub₀ (by norm_num), zpow_natCast]
    norm_num
  have hunder : (10 : ℚ) ^ (-(k : Int)) = 1 / 10 ^ k := by
    rw [zpow_neg, zpow_natCast, one_div]
  have hpow : (0 : ℚ) < 10 ^ k := by positivity
  have hu := roundoff_pos
  constructor
  · have hlt : (10 : ℚ) ^ (-(k : Int)) < 10 ^ (x.decade + 1) := by
      rw [hunder, zpow_add_one₀ (by norm_num)]
      calc (1 : ℚ) / 10 ^ k ≤ c / 10 ^ k := by gcongr
        _ ≤ (finite false x).toRat * (1 + roundoff) := hbelow
        _ < 10 ^ x.decade * 10 := by
          unfold roundoff
          have hpos := zpow_pos (show (0 : ℚ) < 10 by norm_num) x.decade
          linarith
    have := (zpow_lt_zpow_iff_right₀ (show (1 : ℚ) < 10 by norm_num)).mp hlt
    omega
  · have hlt : (10 : ℚ) ^ (x.decade - 1) < 10 ^ (15 - k : Int) := by
      rw [hten]
      calc (10 : ℚ) ^ (x.decade - 1) ≤ (finite false x).toRat := hlow
        _ ≤ c / 10 ^ k * (1 + roundoff) := habove
        _ ≤ (10 ^ 15 - 1) / 10 ^ k * (1 + roundoff) := by gcongr
        _ < 10 ^ 15 / 10 ^ k := by
          rw [div_mul_eq_mul_div, div_lt_div_iff_of_pos_right hpow]
          unfold roundoff
          norm_num
    have := (zpow_lt_zpow_iff_right₀ (show (1 : ℚ) < 10 by norm_num)).mp hlt
    omega

/-- The decimal number lies on the grid that has its places. -/
theorem coversDecimal {places : Nat} (hplaces : k + x.decade - 1 ≤ places) :
    ∃ j, x.CoversDecimal ⟨j, x.decade - 1 - places⟩ := by
  obtain ⟨more, hmore⟩ := Int.eq_ofNat_of_zero_le (show 0 ≤ places - (k + x.decade - 1) by omega)
  have hexponent : -(k : Int) - more = x.decade - 1 - places := by omega
  have hshift := shifted_mul (-(k : Int)) more c
  have hstep : gridStep (-(k : Int)) = unitsInOne := by
    unfold gridStep
    rw [show (-(k : Int)).toNat = 0 by omega, Nat.pow_zero, Nat.mul_one]
  have hden : gridDenominator (-(k : Int)) = 10 ^ k := by
    unfold gridDenominator
    rw [Int.neg_neg, Int.toNat_natCast]
  rw [hstep, hden, hexponent] at hshift
  refine ⟨10 ^ more * c, (covers_iff (gridDenominator_pos _)).mpr ?_⟩
  rw [← hx.toGrid_eq]
  exact toGrid_congr (gridDenominator_pos _) (Nat.pow_pos (by decide)) hshift

end RoundedShort

end Magnitude

/-- Up to fifteen digits before the point, or not far behind it. -/
structure Decimal.IsShort (d : Decimal) : Prop where
  coefficient_le : d.coefficient ≤ 10 ^ 15
  exponent_ge : -22 ≤ d.exponent
  toRat_le : d.toRat ≤ 10 ^ 15

/-- **A number that was rounded from a few digits is printed with a few digits.** -/
theorem Magnitude.RoundedShort.isShort_shortest {x : Magnitude} {c k : Nat}
    (hx : RoundedShort c k x) (tie : TieRule) : (x.shortest tie).IsShort := by
  have h0 := hx.units_ne_zero
  obtain ⟨hlow, hhigh⟩ := hx.decade_bounds
  have hk := hx.places_le
  obtain ⟨places, d, -, hgrid, hshortest, hfewer⟩ := exists_shortest tie h0
  -- the grid of the decimal number itself is hit, so none with more places is looked at
  obtain ⟨enough, henough⟩ : ∃ n : Nat, n = (k + x.decade - 1).toNat := ⟨_, rfl⟩
  have hle : k + x.decade - 1 ≤ enough := by omega
  obtain ⟨j, hj⟩ := hx.coversDecimal hle
  have hplaces : places ≤ enough := by
    by_contra hmore
    have hsome := onDecimalGrid_isSome_of_covers tie hj
    rw [hfewer enough (by omega)] at hsome
    exact Bool.noConfusion hsome
  obtain ⟨hexponent, -⟩ := onDecimalGrid_covers hgrid
  obtain ⟨hpos, hle⟩ := coefficient_bounds h0 hgrid
  rw [hshortest]
  refine ⟨?_, ?_, ?_⟩
  · exact (trimmed_bounds ⟨hpos, Nat.le_trans hle
      (Nat.pow_le_pow_right (by decide) (show places + 1 ≤ 15 by omega))⟩).2
  · have htrimmed := exponent_le_trimmed d
    omega
  · rw [toRat_trimmed]
    unfold Decimal.toRat
    calc (d.coefficient : ℚ) * 10 ^ d.exponent
        ≤ 10 ^ (places + 1) * 10 ^ d.exponent := by
          gcongr
          exact_mod_cast hle
      _ = 10 ^ x.decade := by
          rw [← zpow_natCast, ← zpow_add₀ (by norm_num), hexponent]
          congr 1
          omega
      _ ≤ 10 ^ (15 : Int) := zpow_le_zpow_right₀ (by norm_num) (by omega)
      _ = 10 ^ 15 := by norm_num

end BenchGate
