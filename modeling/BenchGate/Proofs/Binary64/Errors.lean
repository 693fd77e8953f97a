import BenchGate.Proofs.Binary64.Shares

/-!
# How far rounding goes

A rounded quotient is a grid point at most half a spacing away from the exact one. Two bounds follow
from that:

* where the grid has its 53 bits, the error is at most one part in `2 ^ 53`, of the exact quotient
  and of the rounded one alike;
* up to one, whether the grid has its bits there or not, the error is at most half of the distance
  from one to the grid point below it.

Some differences are not rounded at all. Two grid points lie on the grid of the smaller one, and so
does their difference; if it is at most the smaller one, then it has no more than 53 bits.
-/

namespace BenchGate

attribute [local irreducible] unitsInOne unitsAtTop Binary64.gapBelowOne

/-! ## To the nearest whole number and to the grid -/

theorem nearestWhole_near (n : Nat) {d : Nat} (hd : 0 < d) :
    2 * (nearestWhole n d * d) ≤ 2 * n + d ∧ 2 * n ≤ 2 * (nearestWhole n d * d) + d := by
  have hsplit := Nat.div_add_mod n d
  have hrest := Nat.mod_lt n hd
  unfold nearestWhole
  dsimp only
  rw [Nat.mul_comm d] at hsplit
  generalize n % d = rest at *
  generalize n / d = low at *
  split
  · omega
  · split
    · rw [Nat.add_mul]
      omega
    · -- in the middle both neighbours are equally near
      rcases Nat.mod_two_eq_zero_or_one low with heven | hodd
      · rw [heven, Nat.add_zero]
        omega
      · rw [hodd, Nat.add_mul]
        omega

theorem toGrid_mul_eq (n d : Nat) :
    toGrid n d * d = nearestWhole n (d * spacing (n / d)) * (d * spacing (n / d)) := by
  unfold toGrid
  rw [Nat.mul_assoc, Nat.mul_comm (spacing _) d]

/-- Rounding goes half a spacing at most. -/
theorem toGrid_near (n : Nat) {d : Nat} (hd : 0 < d) :
    2 * (toGrid n d * d) ≤ 2 * n + spacing (n / d) * d ∧
      2 * n ≤ 2 * (toGrid n d * d) + spacing (n / d) * d := by
  have hnear := nearestWhole_near n (Nat.mul_pos hd (spacing_pos (n / d)))
  rw [toGrid_mul_eq, Nat.mul_comm (spacing _) d]
  exact hnear

/-- No other multiple of the spacing is nearer. -/
theorem toGrid_closest_of_dvd {n d w : Nat} (hd : 0 < d) (hw : spacing (n / d) ∣ w) :
    ((toGrid n d * d : Nat) - n : Int).natAbs ≤ ((w * d : Nat) - n : Int).natAbs := by
  obtain ⟨j, rfl⟩ := hw
  have hnear := nearestWhole_near n (Nat.mul_pos hd (spacing_pos (n / d)))
  rw [toGrid_mul_eq, Nat.mul_comm (spacing _) j, Nat.mul_assoc, Nat.mul_comm (spacing _) d]
  generalize d * spacing (n / d) = step at *
  generalize nearestWhole n step = k at *
  -- another multiple is a whole step away, of which rounding has gone half at most
  rcases Nat.lt_trichotomy j k with hlt | rfl | hlt
  · have hstep := Nat.mul_le_mul_right step (Nat.succ_le_of_lt hlt)
    rw [Nat.succ_mul] at hstep
    omega
  · exact Nat.le_refl _
  · have hstep := Nat.mul_le_mul_right step (Nat.succ_le_of_lt hlt)
    rw [Nat.succ_mul] at hstep
    omega

/-- **No grid point is nearer.** -/
theorem toGrid_closest {n d w : Nat} (hd : 0 < d) (hw : IsGridPoint w) :
    ((toGrid n d * d : Nat) - n : Int).natAbs ≤ ((w * d : Nat) - n : Int).natAbs := by
  by_cases hfine : spacing (n / d) ∣ w
  · exact toGrid_closest_of_dvd hd hfine
  · -- a point of a finer grid lies below the power of two from which the spacing holds
    have hne : n / d ≠ 0 := by
      intro h0
      rw [h0] at hfine
      exact hfine (Nat.one_dvd w)
    have hbelow : w < 2 ^ Nat.log2 (n / d) := by
      refine Nat.lt_of_not_le fun hle => hfine (Nat.dvd_trans ?_ (spacing_dvd hw))
      have hw0 : w ≠ 0 := by
        have := Nat.two_pow_pos (Nat.log2 (n / d))
        omega
      have hlog := (Nat.le_log2 hw0).mpr hle
      exact Nat.pow_dvd_pow 2 (by omega)
    have hpower : 2 ^ Nat.log2 (n / d) * d ≤ n :=
      (Nat.le_div_iff_mul_le hd).mp (Nat.log2_self_le hne)
    have hpoint : spacing (n / d) ∣ 2 ^ Nat.log2 (n / d) := spacing_dvd_pow (Nat.sub_le _ 52)
    have hclosest := toGrid_closest_of_dvd hd hpoint
    have hscaled := Nat.mul_le_mul_right d (Nat.le_of_lt hbelow)
    omega

/-- Where the grid has its 53 bits, a spacing is a small part of the number. -/
theorem spacing_mul_le {units : Nat} (h : 2 ^ 52 ≤ units) : spacing units * 2 ^ 52 ≤ units := by
  have hne : units ≠ 0 := by omega
  have hlog : 52 ≤ Nat.log2 units := (Nat.le_log2 hne).mpr h
  unfold spacing
  rw [← Nat.pow_add, Nat.sub_add_cancel hlog]
  exact Nat.log2_self_le hne

/-- **The relative error of rounding**, of the exact quotient and of the rounded one. -/
theorem toGrid_relative {n d : Nat} (hd : 0 < d) (h : 2 ^ 52 * d ≤ n) :
    2 ^ 53 * (toGrid n d * d) ≤ (2 ^ 53 + 1) * n ∧
      2 ^ 53 * n ≤ (2 ^ 53 + 1) * (toGrid n d * d) := by
  obtain ⟨habove, hbelow⟩ := toGrid_near n hd
  have hbits : spacing (n / d) * 2 ^ 52 ≤ n / d :=
    spacing_mul_le ((Nat.le_div_iff_mul_le hd).mpr h)
  have hexact : spacing (n / d) * 2 ^ 52 * d ≤ n := (Nat.le_div_iff_mul_le hd).mp hbits
  have hrounded : spacing (n / d) * 2 ^ 52 * d ≤ toGrid n d * d :=
    Nat.mul_le_mul_right d (le_toGrid_of_dvd hd (Nat.dvd_mul_right _ _) hexact)
  rw [Nat.mul_right_comm] at hexact hrounded
  omega

/-- The absolute error up to a power of two, which lies on the grid itself. -/
theorem toGrid_absolute {n d k : Nat} (hd : 0 < d) (h : n ≤ 2 ^ (53 + k) * d) :
    2 * (toGrid n d * d) ≤ 2 * n + 2 ^ k * d ∧ 2 * n ≤ 2 * (toGrid n d * d) + 2 ^ k * d := by
  rcases Nat.lt_or_eq_of_le h with hlt | rfl
  · have hspacing : spacing (n / d) ≤ 2 ^ k := by
      refine Nat.pow_le_pow_right (by decide) ?_
      by_cases h0 : n / d = 0
      · rw [h0]
        exact Nat.zero_le k
      · have hlog := (Nat.log2_lt h0).mpr ((Nat.div_lt_iff_lt_mul hd).mpr hlt)
        omega
    have hscaled := Nat.mul_le_mul_right d hspacing
    obtain ⟨habove, hbelow⟩ := toGrid_near n hd
    omega
  · rw [toGrid_mul (isGridPoint_pow _) hd]
    omega

/-- Up to one, that is half the distance from one to the grid point below it. -/
theorem toGrid_absolute_of_le_one {n d : Nat} (hd : 0 < d) (h : n ≤ unitsInOne * d) :
    2 * (toGrid n d * d) ≤ 2 * n + Binary64.gapBelowOne * d ∧
      2 * n ≤ 2 * (toGrid n d * d) + Binary64.gapBelowOne * d := by
  obtain ⟨k, hgap⟩ : ∃ k, Binary64.gapBelowOne = 2 ^ k :=
    ⟨1021, by unfold Binary64.gapBelowOne; rfl⟩
  rw [Binary64.unitsInOne_eq, hgap, ← Nat.pow_add] at h
  rw [hgap]
  exact toGrid_absolute hd h

/-! ## One grid for two numbers -/

theorem spacing_dvd_spacing {u v : Nat} (h : u ≤ v) : spacing u ∣ spacing v := by
  refine Nat.pow_dvd_pow 2 ?_
  by_cases h0 : u = 0
  · rw [h0]
    exact Nat.zero_le _
  · have hlog : Nat.log2 u ≤ Nat.log2 v :=
      (Nat.le_log2 (by omega)).mpr (Nat.le_trans (Nat.log2_self_le h0) h)
    omega

/-- Larger grid points lie on the grid of a smaller one, and so do differences. -/
theorem spacing_dvd_sub {u v : Nat} (hu : IsGridPoint u) (hv : IsGridPoint v) (h : u ≤ v) :
    spacing u ∣ v - u :=
  Nat.dvd_sub (Nat.dvd_trans (spacing_dvd_spacing h) (spacing_dvd hv)) (spacing_dvd hu)

/-- **A difference that is at most the smaller number is exact.** -/
theorem isGridPoint_sub {u v : Nat} (hu : IsGridPoint u) (hv : IsGridPoint v) (h : u ≤ v)
    (hle : v - u ≤ u) : IsGridPoint (v - u) := by
  obtain ⟨m, hm⟩ := spacing_dvd_sub hu hv h
  have hlt := lt_mul_spacing u
  rw [hm] at hle
  refine ⟨m, Nat.log2 u - 52, ?_, by rw [hm, Nat.mul_comm]; rfl⟩
  refine Nat.lt_of_mul_lt_mul_left (a := spacing u) ?_
  rw [Nat.mul_comm (spacing u) (2 ^ 53)]
  exact Nat.lt_of_le_of_lt hle hlt

end BenchGate
