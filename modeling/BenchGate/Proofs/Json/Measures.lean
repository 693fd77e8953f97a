import BenchGate.Proofs.Binary64.Printed
import BenchGate.Proofs.Binary64.Roundings
import BenchGate.Proofs.Json.Numerals

/-!
# Measures that come back

The digits of a measure are read as a significand and a power of ten, each of which is rounded
before they are put together. Three things are known of the number that comes back:

* it is there. Only a product can leave the range, and the digits stop short of that: up to the
  largest number but one they are at most half a step above it, and those of the largest number are
  read as what they are;
* it is the number that was written if neither the significand nor the power of ten had to be
  rounded. The digits round to the number, so their exact product or quotient does;
* otherwise it may be a neighbour, at most six roundings away, or a little more among the smallest
  numbers.
-/

namespace BenchGate

open Binary64

attribute [local irreducible] unitsInOne unitsAtTop

/-! ## The number that is read -/

/--
The decimal number that the digits of a magnitude are read as. Plain digits of a whole number are
followed by a point and a zero, which is one more digit.
-/
def Magnitude.readAs (x : Magnitude) : Decimal :=
  if x.units = 0 then ⟨0, -1⟩
  else
    let d := x.shortest .toEven
    if (-5 < d.point ∧ d.point ≤ 16) ∧ 0 ≤ d.exponent then
      ⟨10 * (10 ^ d.exponent.toNat * d.coefficient), -1⟩
    else d

namespace Magnitude

variable {x : Magnitude}

theorem reread_eq_scaled (x : Magnitude) :
    x.reread = Json.scaled x.readAs.coefficient x.readAs.exponent := by
  unfold reread readAs
  dsimp only
  split
  · rfl
  · split <;> rfl

theorem readAs_coefficient_lt (x : Magnitude) : x.readAs.coefficient < Json.significandEnd := by
  unfold readAs
  dsimp only
  split
  · decide
  · rename_i h0
    obtain ⟨hpos, hle⟩ := shortest_coefficient_bounds .toEven h0
    split
    · rename_i hplain
      exact Decimal.plain_significand_lt hpos hplain.2 hplain.1.2
    · exact Nat.lt_of_le_of_lt hle (by decide)

theorem toRat_plain {d : Decimal} (h : 0 ≤ d.exponent) :
    (⟨10 * (10 ^ d.exponent.toNat * d.coefficient), -1⟩ : Decimal).toRat = d.toRat := by
  obtain ⟨n, hn⟩ := Int.eq_ofNat_of_zero_le h
  unfold Decimal.toRat
  rw [hn, Int.toNat_natCast, zpow_natCast, zpow_neg_one]
  push_cast
  ring

/-- **A magnitude is what the number that is read is rounded to.** -/
theorem rounds_readAs (x : Magnitude) : Rounds x.readAs.toRat (finite false x) := by
  unfold readAs
  dsimp only
  split
  · rename_i h0
    refine rounds_of_toGrid (n := 0) Nat.one_pos ?_ (by rw [h0]; exact toGrid_zero 1)
    simp [Decimal.toRat]
  · rename_i h0
    have hrounds := rounds_shortest .toEven h0
    split
    · rename_i hplain
      rwa [toRat_plain hplain.2]
    · exact hrounds

/-! ## The range -/

theorem unitsAtTop_eq {a b : Nat} (h : a + b = 2098) : unitsAtTop = 2 ^ (a + b) := by
  rw [unitsAtTop_eq_pow, h]

theorem mul_pow_lt_unitsAtTop {m e : Nat} (hm : m < 2 ^ 53) (he : 53 + e = 2098) :
    m * 2 ^ e < unitsAtTop := by
  rw [unitsAtTop_eq he, Nat.pow_add]
  exact Nat.mul_lt_mul_of_pos_right hm (Nat.two_pow_pos _)

theorem onGrid_mul_pow {m e : Nat} (hm : m < 2 ^ 53) (he : 53 + e = 2098) :
    OnGrid (m * 2 ^ e) :=
  ⟨mul_pow_lt_unitsAtTop hm he, m, e, hm, rfl⟩

theorem onGrid_largest : OnGrid ((2 ^ 53 - 1) * 2 ^ 2045) :=
  onGrid_mul_pow (by decide) (by decide)

/-- The largest finite magnitude. -/
def largest : Magnitude := ⟨(2 ^ 53 - 1) * 2 ^ 2045, onGrid_largest⟩

theorem units_largest : largest.units = (2 ^ 53 - 1) * 2 ^ 2045 := by
  unfold largest
  rfl

theorem eq_of_units_eq {x y : Magnitude} (h : x.units = y.units) : x = y := by
  obtain ⟨units, onGrid⟩ := x
  obtain ⟨units', onGrid'⟩ := y
  obtain rfl : units = units' := h
  rfl

/-- The digits of the largest magnitude are read as that magnitude. -/
theorem reread_largest : largest.reread = .ok (finite false largest) := by decide +kernel

/-- Under the last point below a power of two, an interval ends half a step below that point. -/
theorem upperEnd_le {j : Nat} (hj : 0 < j) (htop : x.units < 2 ^ (53 + j))
    (hlast : x.units ≠ (2 ^ 53 - 1) * 2 ^ j) : x.upperEnd ≤ (2 ^ 55 - 6) * 2 ^ j := by
  unfold upperEnd
  by_cases hgap : 1 < spacing x.units
  · obtain ⟨k, m, -, hspacing, hunits, hm, hm'⟩ := exists_bits hgap
    have hk : k ≤ j := by
      by_contra hmore
      have hpow : 2 ^ (53 + j) ≤ m * 2 ^ k :=
        calc 2 ^ (53 + j) = 2 ^ 52 * 2 ^ (j + 1) := by
              rw [← Nat.pow_add]
              congr 1
              omega
          _ ≤ m * 2 ^ k := Nat.mul_le_mul hm (Nat.pow_le_pow_right (by decide) (by omega))
      omega
    rw [hspacing, hunits, ← Nat.mul_assoc, ← Nat.add_mul]
    rcases Nat.lt_or_eq_of_le hk with hlt | rfl
    · -- up to the power of two in the middle of the range
      calc (4 * m + 2) * 2 ^ k ≤ (2 ^ 55 - 6) * 2 * 2 ^ k := Nat.mul_le_mul_right _ (by omega)
        _ = (2 ^ 55 - 6) * 2 ^ (k + 1) := by rw [Nat.pow_succ 2 k, Nat.mul_assoc, Nat.mul_comm 2]
        _ ≤ (2 ^ 55 - 6) * 2 ^ j :=
          Nat.mul_le_mul_left _ (Nat.pow_le_pow_right (by decide) hlt)
    · have hne : m ≠ 2 ^ 53 - 1 := by
        rintro rfl
        exact hlast hunits
      exact Nat.mul_le_mul_right _ (by omega)
  · obtain ⟨hone, hlt⟩ := spacing_eq_one_of_not_lt hgap
    have hpow : 2 ^ 1 ≤ 2 ^ j := Nat.pow_le_pow_right (by decide) hj
    rw [hone]
    generalize 2 ^ j = power at *
    omega

/-- Where the interval of the largest magnitude but one ends, in ones. -/
def rangeEnd : Nat := (2 ^ 54 - 3) * 2 ^ 970

/-- The ends of the range beside powers of two and ten. -/
theorem range_ends :
    4 * (rangeEnd * unitsInOne) = (2 ^ 55 - 6) * 2 ^ 2045 ∧
    rangeEnd < 10 ^ 309 ∧ rangeEnd < 2 ^ 53 * 10 ^ 293 ∧ unitsInOne ≤ 10 ^ 324 := by
  decide +kernel

theorem upperEnd_le_rangeEnd (h : x ≠ largest) : x.upperEnd ≤ 4 * (rangeEnd * unitsInOne) := by
  have hlt := x.onGrid.1
  rw [unitsAtTop_eq (show 53 + 2045 = 2098 by decide)] at hlt
  have hlast : x.units ≠ (2 ^ 53 - 1) * 2 ^ 2045 := by
    rw [← units_largest]
    exact fun hunits => h (eq_of_units_eq hunits)
  exact Nat.le_trans (upperEnd_le (by decide) hlt hlast) (Nat.le_of_eq range_ends.1.symm)

/-- The digits of a whole number stop short of the end of the range. -/
theorem shortest_mul_pow_le (h0 : x.units ≠ 0) (h : x ≠ largest) {n : Nat}
    (hn : (x.shortest .toEven).exponent = n) :
    (x.shortest .toEven).coefficient * 10 ^ n ≤ rangeEnd := by
  have hcovers := coversDecimal_shortest .toEven h0
  have hend := upperEnd_le_rangeEnd h
  unfold CoversDecimal at hcovers
  rw [hn] at hcovers
  have hstep : gridStep (n : Int) = unitsInOne * 10 ^ n := rfl
  have hden : gridDenominator (n : Int) = 1 := by
    unfold gridDenominator
    rw [show (-(n : Int)).toNat = 0 by omega, Nat.pow_zero]
  rw [hstep, hden] at hcovers
  have hle : 4 * ((x.shortest .toEven).coefficient * (unitsInOne * 10 ^ n)) ≤ x.upperEnd := by
    unfold Covers at hcovers
    split at hcovers <;> omega
  refine Nat.le_of_mul_le_mul_right (c := unitsInOne) ?_ unitsInOne_pos
  rw [Nat.mul_assoc, Nat.mul_comm (10 ^ n)]
  omega

end Magnitude

namespace Json

/-- A count is rounded once. -/
theorem within_ofNat {n : Nat} (hfin : (Binary64.ofNat n).isFinite = true) :
    Within 1 0 (Binary64.ofNat n).toRat n := by
  rcases Nat.eq_zero_or_pos n with rfl | hpos
  · have hzero : (Binary64.ofNat 0).toRat = 0 := toRat_zero
    rw [hzero, Nat.cast_zero]
    exact ⟨by simp, by simp⟩
  · have hrounds := rounds_nearest n Nat.one_pos
    rw [Nat.cast_one, div_one] at hrounds
    exact hrounds.within_of_one_le (by exact_mod_cast hpos) hfin

theorem one_le_toRat_powerOfTen {n : Nat} : 1 ≤ (powerOfTen n).toRat := by
  have hone := toRat_mono (one_le_powerOfTen n)
  rwa [toRat_one] at hone

theorem within_powerOfTen {n : Nat} (h : n ≤ maxPower) :
    Within 1 0 (powerOfTen n).toRat (10 ^ n) := by
  have hwithin := within_ofNat (isFinite_powerOfTen h)
  rwa [Nat.cast_pow] at hwithin

theorem isFinite_mul_of_le {x y X Y : Binary64} (hx : 0 ≤ x) (hy : 0 ≤ y) (hxX : x ≤ X)
    (hyY : y ≤ Y) (hX : X.isFinite = true) (hY : Y.isFinite = true)
    (hproduct : (X * Y).isFinite = true) : (x * y).isFinite = true := by
  have hxfin := isFinite_of_le hx hxX hX
  have hyfin := isFinite_of_le hy hyY hY
  have hx0 := toRat_nonneg hx
  have hy0 := toRat_nonneg hy
  have hle : x.toRat * y.toRat ≤ X.toRat * Y.toRat :=
    mul_le_mul (toRat_mono hxX) (toRat_mono hyY) hy0 (hx0.trans (toRat_mono hxX))
  exact isFinite_of_le ((rounds_mul hxfin hyfin).nonneg (by positivity))
    ((rounds_mul hxfin hyfin).mono (rounds_mul hX hY) hle) hproduct

/--
The largest products of digits and a power: of seventeen digits, for the one power after which
digits have 53 bits, and, with room for one more rounding, for all powers from there on.
-/
theorem isFinite_largestProducts :
    (Binary64.ofNat (10 ^ 17) * powerOfTen 291).isFinite = true ∧
    (∀ n < 293, 292 ≤ n →
      (Binary64.ofNat (Magnitude.rangeEnd / 10 ^ n)).isFinite = true ∧
      (Binary64.ofNat (Magnitude.rangeEnd / 10 ^ n) * powerOfTen n).isFinite = true) ∧
    (nearest false (Magnitude.rangeEnd * (2 ^ 53 + 1)) (2 ^ 53)).isFinite = true := by
  decide +kernel

/-- A count of 53 bits is exact, so only the power and the product are rounded. -/
theorem isFinite_mul_powerOfTen_of_exact {c n : Nat} (hc : c ≤ 2 ^ 53) (hn : n ≤ maxPower)
    (hend : c * 10 ^ n ≤ Magnitude.rangeEnd) :
    (Binary64.ofNat c * powerOfTen n).isFinite = true := by
  have hfin : (Binary64.ofNat c).isFinite = true := isFinite_ofNat (Nat.le_trans hc (by decide))
  have hpower := isFinite_powerOfTen hn
  have hrounds := rounds_mul hfin hpower
  have hu := roundoff_pos
  have hend' : (c * 10 ^ n : ℚ) ≤ Magnitude.rangeEnd := by exact_mod_cast hend
  have hle : (Binary64.ofNat c).toRat * (powerOfTen n).toRat ≤
      (Magnitude.rangeEnd * (2 ^ 53 + 1) : Nat) / (2 ^ 53 : Nat) :=
    calc (Binary64.ofNat c).toRat * (powerOfTen n).toRat
        ≤ c * (10 ^ n * (1 + roundoff)) := by
          rw [toRat_ofNat hc]
          have habove := (within_powerOfTen hn).le
          rw [add_zero, pow_one] at habove
          exact mul_le_mul_of_nonneg_left habove (Nat.cast_nonneg c)
      _ = c * 10 ^ n * (1 + roundoff) := by ring
      _ ≤ Magnitude.rangeEnd * (1 + roundoff) :=
          mul_le_mul_of_nonneg_right hend' (by linarith)
      _ = (Magnitude.rangeEnd * (2 ^ 53 + 1) : Nat) / (2 ^ 53 : Nat) := by
          unfold roundoff
          push_cast
          ring
  have hcount := toRat_nonneg (ofNat_nonneg c)
  have hvalue : 0 ≤ (powerOfTen n).toRat := toRat_nonneg (ofNat_nonneg _)
  exact isFinite_of_le (hrounds.nonneg (by positivity))
    (hrounds.mono (rounds_nearest _ (by decide)) hle) isFinite_largestProducts.2.2

theorem le_maxPower_of_mul_pow_le {c n : Nat} (h0 : 0 < c)
    (hend : c * 10 ^ n ≤ Magnitude.rangeEnd) : n ≤ maxPower := by
  have hrange := Magnitude.range_ends.2.1
  by_contra hmore
  have hpow : 10 ^ 309 ≤ c * 10 ^ n :=
    calc 10 ^ 309 ≤ 10 ^ n := pow_le_pow_right₀ (by decide) (Nat.not_le.mp hmore)
      _ ≤ c * 10 ^ n := Nat.le_mul_of_pos_left _ h0
  exact absurd (Nat.le_trans hpow hend) (Nat.not_le.mpr hrange)

theorem le_two_pow_of_mul_pow_le {c n : Nat} (hn : 293 ≤ n)
    (hend : c * 10 ^ n ≤ Magnitude.rangeEnd) : c ≤ 2 ^ 53 := by
  obtain ⟨k, hk, hrange⟩ : ∃ k, k = 293 ∧ Magnitude.rangeEnd < 2 ^ 53 * 10 ^ k :=
    ⟨293, rfl, Magnitude.range_ends.2.2.1⟩
  by_contra hmore
  have hpow : 2 ^ 53 * 10 ^ k ≤ c * 10 ^ n :=
    Nat.mul_le_mul (Nat.le_of_lt (Nat.not_le.mp hmore))
      (Nat.pow_le_pow_right (by decide) (by omega))
  exact absurd (Nat.le_trans hpow hend) (Nat.not_le.mpr hrange)

/-- **A product of digits and a power of ten stays in the range** if the exact product does. -/
theorem isFinite_mul_powerOfTen {c n : Nat} (hc : c ≤ 10 ^ 17) (hn : n ≤ maxPower)
    (hend : c * 10 ^ n ≤ Magnitude.rangeEnd) :
    (Binary64.ofNat c * powerOfTen n).isFinite = true := by
  rcases Nat.lt_or_ge n 292 with hsmall | hlarge
  · -- seventeen digits leave room for this power
    exact isFinite_mul_of_le (ofNat_nonneg _) (ofNat_nonneg _) (ofNat_le_ofNat hc)
      (ofNat_le_ofNat (Nat.pow_le_pow_right (by decide) (Nat.le_of_lt_succ hsmall)))
      (isFinite_ofNat (by decide)) (isFinite_powerOfTen (n := 291) (by decide))
      isFinite_largestProducts.1
  rcases Nat.lt_or_ge n 293 with hmiddle | hlarge
  · -- the digits may have more than 53 bits, but for this power there is a largest count
    have hc' : c ≤ Magnitude.rangeEnd / 10 ^ n :=
      (Nat.le_div_iff_mul_le (Nat.pow_pos (by decide))).mpr hend
    obtain ⟨hfin, hproduct⟩ := isFinite_largestProducts.2.1 n hmiddle hlarge
    exact isFinite_mul_of_le (ofNat_nonneg _) (ofNat_nonneg _) (ofNat_le_ofNat hc')
      (le_refl (ofNat_ne_nan _)) hfin (isFinite_powerOfTen hn) hproduct
  · exact isFinite_mul_powerOfTen_of_exact (le_two_pow_of_mul_pow_le hlarge hend) hn hend

end Json

/-- **A magnitude always comes back.** -/
theorem Magnitude.exists_reread (x : Magnitude) : ∃ y, x.reread = .ok y := by
  by_cases hlargest : x = largest
  · rw [hlargest]
    exact ⟨_, reread_largest⟩
  unfold reread
  by_cases h0 : x.units = 0
  · rw [if_pos h0]
    exact ⟨_, rfl⟩
  · rw [if_neg h0]
    dsimp only
    split
    · exact ⟨_, rfl⟩
    · obtain ⟨hpos, hle⟩ := shortest_coefficient_bounds .toEven h0
      cases hn : (x.shortest .toEven).exponent with
      | ofNat n =>
          have hend := shortest_mul_pow_le h0 hlargest hn
          have hpower := Json.le_maxPower_of_mul_pow_le hpos hend
          have hproduct := Json.isFinite_mul_powerOfTen hle hpower hend
          unfold Json.scaled
          dsimp only
          rw [if_neg (Nat.ne_of_gt hpos), if_pos hpower, if_pos hproduct]
          exact ⟨_, rfl⟩
      | negSucc n => exact ⟨_, rfl⟩

theorem Binary64.exists_reread (x : Binary64) : ∃ y, x.reread = .ok y := by
  cases x with
  | nan => exact ⟨_, rfl⟩
  | infinity s => exact ⟨_, rfl⟩
  | finite s m =>
      obtain ⟨y, hy⟩ := m.exists_reread
      exact ⟨_, congrArg (Except.map _) hy⟩

theorem JsonNumber.exists_reread (n : JsonNumber) : ∃ m, n.reread = .ok m := by
  cases n with
  | natural n => exact ⟨_, rfl⟩
  | negative n => exact ⟨_, rfl⟩
  | binary x =>
      obtain ⟨y, hy⟩ := x.exists_reread
      exact ⟨_, congrArg (Except.map binary) hy⟩

/-! ## The error -/

namespace Json

theorem one_le_ten_pow (n : Nat) : (1 : ℚ) ≤ 10 ^ n := one_le_pow₀ (by norm_num)

/-- A division by a power of ten adds one rounding, and one for the power itself. -/
theorem within_div_powerOfTen {x : Binary64} {k n : Nat} {s a : ℚ} (hx : Within k s x.toRat a)
    (hfin : x.isFinite = true) (hx0 : 0 ≤ x) (ha : 0 ≤ a) (hs : 0 ≤ s) (hn : n ≤ maxPower) :
    Within (1 + (k + 1)) (halfUnit + s) (x / powerOfTen n).toRat (a / 10 ^ n) := by
  have hpower := isFinite_powerOfTen hn
  have hone := one_le_powerOfTen n
  have hpos : 0 < powerOfTen n := zero_lt_iff.mpr ⟨hone.2.1, key_pos_of_one_le hone⟩
  have hvalue := toRat_nonneg hx0
  have hvalue' : 0 ≤ (powerOfTen n).toRat := toRat_nonneg (ofNat_nonneg _)
  have hdiv := (rounds_div hfin hpower hpos).within (by positivity)
    (isFinite_div hfin hx0 hpower hone)
  exact hdiv.trans
    (hx.div (within_powerOfTen hn) hs hvalue ha one_le_toRat_powerOfTen (one_le_ten_pow n))
    (le_of_lt halfUnit_pos) hs

/-- Two divisions make five roundings. -/
theorem within_divideByPower {m n : Nat} (hm : m < significandEnd) (hn : n ≤ 2 * maxPower) :
    Within 5 (2 * halfUnit) (divideByPower (Binary64.ofNat m) n).toRat (m / 10 ^ n) := by
  have hhalf := halfUnit_pos
  have hfin : (Binary64.ofNat m).isFinite = true := isFinite_ofNat (Nat.le_of_lt hm)
  have h0 := ofNat_nonneg m
  have hwithin := within_ofNat hfin
  have hm0 : (0 : ℚ) ≤ m := Nat.cast_nonneg m
  unfold divideByPower
  split
  · rename_i hone
    have hresult := isFinite_div hfin h0 (isFinite_powerOfTen hone) (one_le_powerOfTen n)
    have hdivided := div_nonneg h0 (isFinite_powerOfTen hone)
      (key_pos_of_one_le (one_le_powerOfTen n))
    exact (within_div_powerOfTen hwithin hfin h0 hm0 le_rfl hone).mono (toRat_nonneg hdivided)
      (by positivity) (by linarith) (by decide) (by linarith)
  · rename_i hmore
    have hmax := isFinite_powerOfTen (Nat.le_refl maxPower)
    have hresult := isFinite_div hfin h0 hmax (one_le_powerOfTen maxPower)
    have hdivided := div_nonneg h0 hmax (key_pos_of_one_le (one_le_powerOfTen maxPower))
    have hfirst := within_div_powerOfTen hwithin hfin h0 hm0 le_rfl (Nat.le_refl maxPower)
    have hsecond := within_div_powerOfTen hfirst hresult hdivided (by positivity) (by linarith)
      (show n - maxPower ≤ maxPower by omega)
    have hsplit : maxPower + (n - maxPower) = n := by omega
    have hpower : (m / 10 ^ maxPower / 10 ^ (n - maxPower) : ℚ) = m / 10 ^ n := by
      rw [div_div, ← pow_add, hsplit]
    have hsum : halfUnit + (halfUnit + 0) = 2 * halfUnit := by ring
    rwa [hpower, hsum] at hsecond

/-- A product that stays in the range is at least one, so its roundings are relative. -/
theorem within_mul_powerOfTen {m n : Nat} (h0 : 0 < m) (hm : m < significandEnd)
    (hn : n ≤ maxPower) (hfin : (Binary64.ofNat m * powerOfTen n).isFinite = true) :
    Within 3 0 (Binary64.ofNat m * powerOfTen n).toRat (m * 10 ^ n) := by
  have hmfin : (Binary64.ofNat m).isFinite = true := isFinite_ofNat (Nat.le_of_lt hm)
  have hpower := isFinite_powerOfTen hn
  have hone := toRat_mono (one_le_ofNat h0)
  have hone' := one_le_toRat_powerOfTen (n := n)
  rw [toRat_one] at hone
  have hrounded := (rounds_mul hmfin hpower).within_of_one_le
    (one_le_mul_of_one_le_of_one_le hone hone') hfin
  have hexact := (within_ofNat hmfin).mul (within_powerOfTen hn) (by linarith) (Nat.cast_nonneg m)
    (by linarith) (by positivity)
  have hsum : (0 : ℚ) + 0 = 0 := add_zero 0
  have hboth := hrounded.trans hexact le_rfl le_rfl
  rwa [hsum] at hboth

/-- What scaling gives: zero, a product in the range, or a quotient. -/
theorem scaled_cases {m : Nat} {e : Int} {y : Binary64} (h : scaled m e = .ok y) :
    (m = 0 ∧ y = 0) ∨
    (∃ n : Nat, e = n ∧ 0 < m ∧ n ≤ maxPower ∧ y = Binary64.ofNat m * powerOfTen n ∧
      y.isFinite = true) ∨
    ∃ n : Nat, e = -n ∧ y = divideByPower (Binary64.ofNat m) n := by
  cases e with
  | ofNat n =>
      unfold scaled at h
      dsimp only at h
      split at h
      · rename_i hzero
        exact .inl ⟨hzero, (Except.ok.inj h).symm⟩
      · rename_i hm0
        split at h
        · rename_i hn
          split at h
          · rename_i hfin
            obtain rfl := Except.ok.inj h
            exact .inr (.inl ⟨n, rfl, Nat.pos_of_ne_zero hm0, hn, rfl, hfin⟩)
          · cases h
        · cases h
  | negSucc n => exact .inr (.inr ⟨n + 1, rfl, (Except.ok.inj h).symm⟩)

/-- **Scaling goes through five roundings at most**, down to the powers that give zero. -/
theorem scaled_within {m : Nat} {e : Int} {y : Binary64} (hm : m < significandEnd)
    (he : -(2 * maxPower : Nat) ≤ e) (h : scaled m e = .ok y) :
    Within 5 (2 * halfUnit) y.toRat (m * 10 ^ e) := by
  have hhalf := halfUnit_pos
  have hy0 := toRat_nonneg (scaled_bounds hm h).2
  rcases scaled_cases h with ⟨rfl, rfl⟩ | ⟨n, rfl, hm0, hn, rfl, hfin⟩ | ⟨n, rfl, rfl⟩
  · rw [toRat_zero, Nat.cast_zero, zero_mul]
    exact .refl le_rfl (by linarith)
  · rw [zpow_natCast]
    exact (within_mul_powerOfTen hm0 hm hn hfin).mono hy0 (by positivity) le_rfl (by decide)
      (by linarith)
  · rw [zpow_neg, zpow_natCast, ← div_eq_mul_inv]
    exact within_divideByPower hm (by omega)

end Json

namespace Magnitude

variable {x : Magnitude}

/-- No digits stand further behind the point than those of the smallest number. -/
theorem decade_ge (h0 : x.units ≠ 0) : -323 ≤ x.decade := by
  have hunits := x.toRat_finite
  have hhigh := (decade_toRat_bounds h0).2
  obtain ⟨n, hn, hsmall⟩ : ∃ n, n = 324 ∧ unitsInOne ≤ 10 ^ n :=
    ⟨324, rfl, range_ends.2.2.2⟩
  have hsmall' : (unitsInOne : ℚ) ≤ 10 ^ n := by exact_mod_cast hsmall
  have hone : (1 : ℚ) ≤ x.units := by exact_mod_cast Nat.pos_of_ne_zero h0
  have hcancel : (10 : ℚ) ^ (-(n : Int)) * 10 ^ n = 1 := by
    rw [← zpow_natCast, ← zpow_add₀ (by norm_num), Int.add_left_neg, zpow_zero]
  have hlt : (10 : ℚ) ^ (-(n : Int)) < 10 ^ x.decade := by
    refine lt_of_le_of_lt (le_of_mul_le_mul_right ?_ unitsInOne_cast_pos) hhigh
    calc (10 : ℚ) ^ (-(n : Int)) * unitsInOne ≤ 10 ^ (-(n : Int)) * 10 ^ n := by gcongr
      _ = 1 := hcancel
      _ ≤ x.units := hone
      _ = (finite false x).toRat * unitsInOne := hunits.symm
  have := (zpow_lt_zpow_iff_right₀ (show (1 : ℚ) < 10 by norm_num)).mp hlt
  omega

theorem readAs_exponent_ge (x : Magnitude) : -340 ≤ x.readAs.exponent := by
  unfold readAs
  dsimp only
  split
  · decide
  · rename_i h0
    split
    · show (-340 : Int) ≤ -1
      decide
    · obtain ⟨places, d, hplaces, hgrid, hshortest, -⟩ := exists_shortest .toEven h0
      have hdecade := decade_ge h0
      have hexponent := (onDecimalGrid_covers hgrid).1
      have htrimmed := exponent_le_trimmed d
      rw [hshortest]
      omega

/-- **What comes back is at most six roundings away.** -/
theorem reread_within {y : Binary64} (h : x.reread = .ok y) :
    Within 6 (3 * halfUnit) y.toRat (finite false x).toRat := by
  have hhalf := halfUnit_pos
  have hexponent := x.readAs_exponent_ge
  have hvalue : 0 ≤ x.readAs.toRat := by
    unfold Decimal.toRat
    positivity
  rw [reread_eq_scaled] at h
  have hscaled := Json.scaled_within x.readAs_coefficient_lt
    (Int.le_trans (by decide) hexponent) h
  have hrounds := (x.rounds_readAs.within hvalue rfl).symm
  have hsum : 2 * halfUnit + halfUnit = 3 * halfUnit := by ring
  have hboth := hscaled.trans hrounds (by linarith) (le_of_lt hhalf)
  rwa [hsum] at hboth

end Magnitude

/-! ## Digits that are read without an error -/

namespace Json

/-- Powers of ten up to `10 ^ 22` are their own values. -/
theorem toRat_powerOfTen {n : Nat} (h : n ≤ 22) : (powerOfTen n).toRat = 10 ^ n := by
  have hpoint : IsGridPoint (10 ^ n) := by
    refine ⟨5 ^ n, n, ?_, by rw [← Nat.mul_pow]⟩
    exact Nat.lt_of_le_of_lt (Nat.pow_le_pow_right (by decide) h) (by decide)
  have hle : 10 ^ n ≤ 2 ^ 74 :=
    Nat.le_trans (Nat.pow_le_pow_right (by decide) h) (by decide)
  have hvalue := toRat_ofNat_of_isGridPoint hpoint
    (Nat.le_of_lt (mul_unitsInOne_lt_top hle (by decide)))
  rwa [Nat.cast_pow] at hvalue

/-- A significand and a power of ten that are not rounded are put together with one rounding. -/
theorem scaled_rounds {m : Nat} {e : Int} {y : Binary64} (hm : m < significandEnd)
    (hpoint : IsGridPoint m) (he : e.natAbs ≤ 22) (h : scaled m e = .ok y) :
    Rounds (m * 10 ^ e) y ∧ y.Unsigned := by
  have hfin : (Binary64.ofNat m).isFinite = true := isFinite_ofNat (Nat.le_of_lt hm)
  have hvalue : (Binary64.ofNat m).toRat = m := toRat_ofNat_of_isGridPoint hpoint
    (Nat.le_of_lt (mul_unitsInOne_lt_top (Nat.le_of_lt hm) (by decide)))
  rcases scaled_cases h with ⟨rfl, rfl⟩ | ⟨n, rfl, -, hmax, rfl, -⟩ | ⟨n, rfl, rfl⟩
  · have hrounds := rounds_toRat isFinite_zero
    rw [toRat_zero] at hrounds
    rw [Nat.cast_zero, zero_mul]
    exact ⟨hrounds, unsigned_zero⟩
  · have hpower := isFinite_powerOfTen hmax
    have hrounds := rounds_mul hfin hpower
    rw [hvalue, toRat_powerOfTen (by omega)] at hrounds
    rw [zpow_natCast]
    exact ⟨hrounds, (unsigned_ofNat _).mul (unsigned_ofNat _) hfin hpower⟩
  · have hn : n ≤ 22 := by omega
    have hmax : n ≤ maxPower := Nat.le_trans hn (by decide)
    have hpower := isFinite_powerOfTen hmax
    have hone := one_le_powerOfTen n
    have hpos := key_pos_of_one_le hone
    have hrounds := rounds_div hfin hpower (zero_lt_iff.mpr ⟨hone.2.1, hpos⟩)
    rw [hvalue, toRat_powerOfTen hn] at hrounds
    rw [zpow_neg, zpow_natCast, ← div_eq_mul_inv]
    unfold divideByPower
    rw [if_pos hmax]
    exact ⟨hrounds, (unsigned_ofNat _).div (unsigned_ofNat _) hfin hpower hpos⟩

end Json

namespace Magnitude

variable {x : Magnitude}

/-- Neither the significand nor the power of ten has to be rounded when the digits are read. -/
structure ReadsExactly (x : Magnitude) : Prop where
  significand : IsGridPoint x.readAs.coefficient
  exponent_le : x.readAs.exponent.natAbs ≤ 22

/-- **Digits that are read without an error come back as the number that was written.** -/
theorem ReadsExactly.reread_eq (h : x.ReadsExactly) : x.reread = .ok (finite false x) := by
  obtain ⟨y, hy⟩ := x.exists_reread
  have hscaled := hy
  rw [reread_eq_scaled] at hscaled
  obtain ⟨hrounds, hunsigned⟩ :=
    Json.scaled_rounds x.readAs_coefficient_lt h.significand h.exponent_le hscaled
  have hsame : y = finite false x :=
    hunsigned.eq_of_key_eq rfl (hrounds.key_eq x.rounds_readAs)
  rw [hy, hsame]

theorem readsExactly_zero (h : x.units = 0) : x.ReadsExactly := by
  have hread : x.readAs = ⟨0, -1⟩ := if_pos h
  constructor
  · rw [hread]
    exact ⟨0, 0, by decide, rfl⟩
  · rw [hread]
    decide

/-- **Numbers of up to fifteen digits are read without an error.** -/
theorem readsExactly_of_isShort (h0 : x.units ≠ 0) (h : (x.shortest .toEven).IsShort) :
    x.ReadsExactly := by
  obtain ⟨hcoefficient, hexponent, hvalue⟩ := h
  have hpos := (shortest_coefficient_bounds .toEven h0).1
  have hread : x.readAs = if (-5 < (x.shortest .toEven).point ∧ (x.shortest .toEven).point ≤ 16) ∧
      0 ≤ (x.shortest .toEven).exponent then
        ⟨10 * (10 ^ (x.shortest .toEven).exponent.toNat * (x.shortest .toEven).coefficient), -1⟩
      else x.shortest .toEven := if_neg h0
  generalize x.shortest .toEven = d at *
  rw [Decimal.toRat] at hvalue
  split at hread
  · rename_i hplain
    -- the zero after the point makes the significand even, so it has one bit less
    have hwhole : 10 ^ d.exponent.toNat * d.coefficient ≤ 10 ^ 15 := by
      obtain ⟨n, hn⟩ := Int.eq_ofNat_of_zero_le hplain.2
      rw [hn, zpow_natCast] at hvalue
      rw [hn, Int.toNat_natCast, Nat.mul_comm]
      exact_mod_cast hvalue
    have hpoint := isGridPoint_mul_pow
      (m := 5 * (10 ^ d.exponent.toNat * d.coefficient)) (by omega) 1
    constructor
    · rw [hread]
      have heven : 10 * (10 ^ d.exponent.toNat * d.coefficient) =
          5 * (10 ^ d.exponent.toNat * d.coefficient) * 2 ^ 1 := by omega
      show IsGridPoint (10 * (10 ^ d.exponent.toNat * d.coefficient))
      rwa [heven]
    · rw [hread]
      show (-1 : Int).natAbs ≤ 22
      decide
  · have hpoint := isGridPoint_mul_pow (m := d.coefficient)
      (Nat.le_trans hcoefficient (by decide)) 0
    rw [Nat.pow_zero, Nat.mul_one] at hpoint
    have hten : (10 : ℚ) ^ d.exponent ≤ 10 ^ (15 : Int) :=
      calc (10 : ℚ) ^ d.exponent ≤ d.coefficient * 10 ^ d.exponent :=
            le_mul_of_one_le_left (by positivity) (by exact_mod_cast hpos)
        _ ≤ 10 ^ 15 := hvalue
        _ = 10 ^ (15 : Int) := by norm_num
    have hle := (zpow_le_zpow_iff_right₀ (show (1 : ℚ) < 10 by norm_num)).mp hten
    constructor
    · rwa [hread]
    · rw [hread]
      omega

end Magnitude

namespace Binary64

/-- Whether the digits of a number are read without an error. -/
def ReadsExactly : Binary64 → Prop
  | finite _ m => m.ReadsExactly
  | _ => False

theorem ReadsExactly.reread_eq {x : Binary64} (h : x.ReadsExactly) : x.reread = .ok x := by
  cases x with
  | nan => exact h.elim
  | infinity s => exact h.elim
  | finite s m =>
      have hm : m.reread = .ok (finite false m) := Magnitude.ReadsExactly.reread_eq h
      unfold reread
      dsimp only
      rw [hm]
      cases s <;> rfl

/-- Decimal numbers of up to fifteen digits, the last of them not far behind the point. -/
theorem readsExactly_nearest {s : Bool} {c k : Nat} (hc : c < 10 ^ 15) (hk : k ≤ 21)
    (hfin : (nearest s c (10 ^ k)).isFinite = true) : (nearest s c (10 ^ k)).ReadsExactly := by
  obtain ⟨t, m, hm⟩ := isFinite_iff.mp hfin
  have hunits : m.units = toGrid (c * unitsInOne) (10 ^ k) := units_of_ofUnits_eq hm
  rw [hm]
  show m.ReadsExactly
  rcases Nat.eq_zero_or_pos c with rfl | hpos
  · refine Magnitude.readsExactly_zero ?_
    rw [hunits, Nat.zero_mul, toGrid_zero]
  · have hshort : Magnitude.RoundedShort c k m := ⟨hpos, hc, hk, hunits.symm⟩
    exact Magnitude.readsExactly_of_isShort hshort.units_ne_zero (hshort.isShort_shortest _)

/-- How a measure that was read back stands to the one that was written. -/
structure RestoredAs (x y : Binary64) : Prop where
  isFinite : y.isFinite = true
  nonneg : 0 ≤ y
  exact : x.ReadsExactly → y = x
  short : ∀ (s : Bool) (c k : Nat), c < 10 ^ 15 → k ≤ 21 → x = nearest s c (10 ^ k) → y = x
  within : Within 6 (3 * halfUnit) y.toRat x.toRat

/-- **Every finite measure comes back**, as itself or as a number near it. -/
theorem exists_restoredAs {x : Binary64} (hfin : x.isFinite = true) (h0 : 0 ≤ x) :
    ∃ y, x.reread = .ok y ∧ x.RestoredAs y := by
  obtain ⟨y, hy⟩ := x.exists_reread
  obtain ⟨hyfin, hy0⟩ := Json.reread_bounds hfin h0 hy
  have hhalf := halfUnit_pos
  have hexact (h : x.ReadsExactly) : y = x := Except.ok.inj (hy.symm.trans h.reread_eq)
  refine ⟨y, hy, hyfin, hy0, hexact, ?_, ?_⟩
  · rintro s c k hc hk rfl
    exact hexact (readsExactly_nearest hc hk hfin)
  · obtain ⟨s, m, rfl⟩ := isFinite_iff.mp hfin
    by_cases hzero : m.units = 0
    · rw [hexact (Magnitude.readsExactly_zero hzero)]
      exact .refl (toRat_nonneg h0) (by linarith)
    · cases s with
      | false =>
          obtain ⟨z, hz⟩ := m.exists_reread
          have hread : (finite false m).reread = .ok z := by
            unfold reread
            dsimp only
            rw [hz]
            rfl
          obtain rfl := Except.ok.inj (hy.symm.trans hread)
          exact Magnitude.reread_within hz
      | true =>
          -- below zero there are no measures
          have hkey := (zero_le_iff.mp h0).2
          simp only [key, signedUnits, if_true] at hkey
          omega

end Binary64

end BenchGate
