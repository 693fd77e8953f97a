import BenchGate.Proofs.Binary64.Averages

/-!
# Shares of counts

A share is the rounded quotient of two counts. With no more than `2 ^ 53` in the whole, rounding
cannot carry it to an end of its range: a part that lacks only one is at most `1 - 2 ^ -53`, the
grid point below one, and a part of only one is at least `2 ^ -53`. So a share of one is the whole,
and a share of zero is nothing.
-/

namespace BenchGate

attribute [local irreducible] unitsInOne unitsAtTop

namespace Binary64

/-- The distance from one to the grid point below it, `2 ^ -53`, counted in units. -/
def gapBelowOne : Nat := 2 ^ 1021

attribute [local irreducible] gapBelowOne

theorem gapBelowOne_pos : 0 < gapBelowOne := by
  unfold gapBelowOne
  apply Nat.two_pow_pos

theorem unitsInOne_eq : unitsInOne = 2 ^ 53 * gapBelowOne := by
  have hsplit : ∀ a b, a + b = 1074 → 2 ^ 1074 = 2 ^ a * 2 ^ b := by
    intro a b h
    rw [← h, Nat.pow_add]
  rw [unitsInOne_eq_pow]
  unfold gapBelowOne
  exact hsplit 53 1021 (by decide)

theorem mul_unitsInOne_mul_unitsInOne (n : Nat) :
    n * unitsInOne * unitsInOne = n * 2 ^ 53 * (gapBelowOne * unitsInOne) := by
  calc n * unitsInOne * unitsInOne
      = n * (2 ^ 53 * gapBelowOne) * unitsInOne := by rw [← unitsInOne_eq]
    _ = n * 2 ^ 53 * (gapBelowOne * unitsInOne) := by simp only [Nat.mul_assoc]

theorem isGridPoint_mul_gapBelowOne {k : Nat} (h : k ≤ 2 ^ 53) :
    IsGridPoint (k * gapBelowOne) := by
  unfold gapBelowOne
  exact isGridPoint_mul_pow h 1021

theorem mul_gapBelowOne_lt_top {k : Nat} (h : k ≤ 2 ^ 53) : k * gapBelowOne < unitsAtTop := by
  have hone : k * gapBelowOne ≤ unitsInOne := by
    rw [unitsInOne_eq]
    exact Nat.mul_le_mul_right _ h
  have htop := mul_unitsInOne_lt_top (n := 1) (k := 0) (by decide) (by decide)
  omega

variable {part whole : Nat}

/-- A share of counts that are exact is rounded once. -/
theorem key_share (h0 : 0 < whole) (hpart : part ≤ 2 ^ 53) (hwhole : whole ≤ 2 ^ 53) :
    share part whole ≠ nan ∧ (share part whole).key =
      roundedKey ((part * unitsInOne : Nat) * unitsInOne) (whole * unitsInOne) := by
  have hdiv := div_finite (isFinite_ofNat (n := part) (by omega))
    (isFinite_ofNat (n := whole) (by omega)) (key_pos_of_one_le (one_le_ofNat h0))
  rw [key_ofNat_of_le hpart, key_ofNat_of_le hwhole, Int.natAbs_natCast] at hdiv
  unfold share
  rw [if_neg (Nat.ne_of_gt h0)]
  exact hdiv

/-- Multiples of the gap are grid points, so a share that is at most one of them stays so. -/
theorem key_share_le (h0 : 0 < whole) (hpart : part ≤ 2 ^ 53) (hwhole : whole ≤ 2 ^ 53) {k : Nat}
    (hk : k ≤ 2 ^ 53) (h : part * 2 ^ 53 ≤ k * whole) :
    (share part whole).key ≤ (k * gapBelowOne : Nat) := by
  rw [(key_share h0 hpart hwhole).2]
  refine roundedKey_le ?_ ?_ (Nat.mul_pos h0 unitsInOne_pos) ?_
  · exact isGridPoint_mul_gapBelowOne hk
  · exact Nat.le_of_lt (mul_gapBelowOne_lt_top hk)
  · rw [← Int.natCast_mul, ← Int.natCast_mul]
    refine Int.ofNat_le.mpr ?_
    calc part * unitsInOne * unitsInOne
        = part * 2 ^ 53 * (gapBelowOne * unitsInOne) := mul_unitsInOne_mul_unitsInOne part
      _ ≤ k * whole * (gapBelowOne * unitsInOne) := Nat.mul_le_mul_right _ h
      _ = k * gapBelowOne * (whole * unitsInOne) := Nat.mul_mul_mul_comm _ _ _ _

/-- **Less than the whole is a share below one.** -/
theorem share_lt_one (h : part < whole) (hwhole : whole ≤ 2 ^ 53) : share part whole < 1 := by
  have h0 : 0 < whole := Nat.zero_lt_of_lt h
  have hpart : part ≤ 2 ^ 53 := by omega
  have hbound := key_share_le h0 hpart hwhole (k := 2 ^ 53 - 1) (by omega) (by omega)
  have hgap := gapBelowOne_pos
  refine ⟨(key_share h0 hpart hwhole).1, ofNat_ne_nan 1, ?_⟩
  rw [key_one, unitsInOne_eq]
  rw [Nat.sub_one_mul] at hbound
  omega

/-- **More than nothing is a share above zero.** -/
theorem share_pos (hpart : 0 < part) (hle : part ≤ whole) (hwhole : whole ≤ 2 ^ 64) :
    0 < share part whole := by
  have h0 : 0 < whole := Nat.lt_of_lt_of_le hpart hle
  unfold share
  rw [if_neg (Nat.ne_of_gt h0)]
  exact div_pos (isFinite_ofNat (Nat.le_trans hle hwhole)) (one_le_ofNat hpart)
    (isFinite_ofNat hwhole) (key_pos_of_one_le (one_le_ofNat h0))

theorem share_self (h0 : 0 < whole) (hwhole : whole ≤ 2 ^ 64) : share whole whole = 1 := by
  unfold share
  rw [if_neg (Nat.ne_of_gt h0), ofNat_div_self h0 hwhole]

/-- A share of any counts lies in the range of shares. -/
theorem share_bounds (h0 : 0 < whole) (hle : part ≤ whole) (hwhole : whole ≤ 2 ^ 64) :
    0 ≤ share part whole ∧ share part whole ≤ 1 := by
  have hfinite := isFinite_ofNat hwhole
  have hpos := key_pos_of_one_le (one_le_ofNat h0)
  rw [← share_self h0 hwhole]
  unfold share
  rw [if_neg (Nat.ne_of_gt h0), if_neg (Nat.ne_of_gt h0)]
  exact ⟨div_nonneg (ofNat_nonneg part) hfinite hpos,
    div_le_div_right (ofNat_le_ofNat hle) hfinite hpos⟩

/-- Nothing is a share of zero, and of the zero without a sign. -/
theorem share_zero (hwhole : whole ≤ 2 ^ 64) : share 0 whole = 0 := by
  unfold share
  split
  · rfl
  · rename_i h0
    have hpos := key_pos_of_one_le (one_le_ofNat (Nat.pos_of_ne_zero h0))
    obtain ⟨m, hm, hunits, -⟩ := exists_magnitude (isFinite_ofNat hwhole) hpos
    have hzero : (0 : Binary64) = ofUnits false (0 * unitsInOne) 1 := rfl
    rw [hm]
    change (0 / finite false m : Binary64) = 0
    rw [zero_eq, zero, finite_div_finite false Magnitude.zero hunits, ← zero, ← zero_eq, hzero]
    refine ofUnits_congr ?_
    rw [show Magnitude.zero.units = 0 from rfl, Nat.zero_mul, toGrid_zero, toGrid_zero]

theorem clampToShare_of_bounds {x : Binary64} (h0 : 0 ≤ x) (h1 : x ≤ 1) : x.clampToShare = x := by
  have hnan := h0.2.1
  have hlow : ¬ x < 0 := (not_lt_iff hnan (ofNat_ne_nan 0)).mpr h0
  have hhigh : ¬ 1 < x := (not_lt_iff (ofNat_ne_nan 1) hnan).mpr h1
  unfold clampToShare
  rw [if_neg hnan, if_neg hlow, if_neg hhigh]

end Binary64

end BenchGate
