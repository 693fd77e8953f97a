import Mathlib.Algebra.Group.Nat.Defs
import BenchGate.Binary64.Basic

/-!
# Rounding keeps the order and the grid

Two facts about `toGrid` carry every argument about computed numbers:

* it is **monotone**: a larger quotient never goes to a smaller grid point, whatever the two
  denominators are;
* it is **exact** on the grid: a quotient that is a grid point stays where it is.

Together they say that a quotient below a grid point is not rounded past it, which is how every
bound on a computed number is proved. Monotonicity is the delicate one, since the grid becomes
coarser on the way up: within one power of two it is the monotonicity of `nearestWhole`, and across
powers of two the power between them is a point of both grids.
-/

namespace BenchGate

/-! ## To the nearest whole number -/

/-- A larger quotient has at least the whole part of a smaller one. -/
theorem div_le_div_of_mul_le {n d n' d' : Nat} (hd : 0 < d) (hd' : 0 < d')
    (h : n * d' ≤ n' * d) : n / d ≤ n' / d' := by
  rw [Nat.le_div_iff_mul_le hd']
  refine Nat.le_of_mul_le_mul_right ?_ hd
  calc n / d * d' * d = n / d * d * d' := Nat.mul_right_comm _ _ _
    _ ≤ n * d' := Nat.mul_le_mul_right d' (Nat.div_mul_le_self n d)
    _ ≤ n' * d := h

/-- Of two quotients with one whole part the remainders decide. -/
theorem mod_mul_le_of_div_eq {n d n' d' : Nat} (h : n * d' ≤ n' * d) (hq : n / d = n' / d') :
    n % d * d' ≤ n' % d' * d := by
  have hn : (n / d * d + n % d) * d' ≤ (n' / d' * d' + n' % d') * d := by
    rw [Nat.mul_comm (n / d), Nat.mul_comm (n' / d'), Nat.div_add_mod, Nat.div_add_mod]
    exact h
  rw [hq, Nat.add_mul, Nat.add_mul, Nat.mul_right_comm] at hn
  exact Nat.le_of_add_le_add_left hn

theorem nearestWhole_mono {n d n' d' : Nat} (hd : 0 < d) (hd' : 0 < d') (h : n * d' ≤ n' * d) :
    nearestWhole n d ≤ nearestWhole n' d' := by
  rcases Nat.lt_or_eq_of_le (div_le_div_of_mul_le hd hd' h) with hlt | heq
  · -- rounding up the smaller one only reaches the whole part of the larger
    exact Nat.le_trans (nearestWhole_le n d) (Nat.le_trans hlt (div_le_nearestWhole n' d'))
  · have hr := mod_mul_le_of_div_eq h heq
    unfold nearestWhole
    dsimp only
    rw [← heq]
    -- a remainder of at least half its divisor forces the same of the larger quotient
    have half : d ≤ 2 * (n % d) → d' ≤ 2 * (n' % d') := by
      intro hh
      refine Nat.le_of_mul_le_mul_right ?_ hd
      have h1 := Nat.mul_le_mul_right d' hh
      rw [Nat.mul_assoc] at h1
      rw [Nat.mul_comm d' d, Nat.mul_assoc]
      omega
    have more : d < 2 * (n % d) → d' < 2 * (n' % d') := by
      intro hh
      refine Nat.lt_of_mul_lt_mul_right (a := d) ?_
      have h1 := Nat.mul_lt_mul_of_pos_right hh hd'
      rw [Nat.mul_assoc] at h1
      rw [Nat.mul_comm d' d, Nat.mul_assoc]
      omega
    by_cases hlow : 2 * (n % d) < d
    · rw [if_pos hlow]
      split
      · exact Nat.le_refl _
      · split <;> omega
    · have hge : ¬ 2 * (n' % d') < d' := Nat.not_lt.mpr (half (Nat.not_lt.mp hlow))
      rw [if_neg hlow, if_neg hge]
      by_cases hhigh : d < 2 * (n % d)
      · exact Nat.le_of_eq (by rw [if_pos hhigh, if_pos (more hhigh)])
      · rw [if_neg hhigh]
        split <;> omega

theorem nearestWhole_le_of_le {n d k : Nat} (hd : 0 < d) (h : n ≤ k * d) :
    nearestWhole n d ≤ k := by
  have hmono : nearestWhole n d ≤ nearestWhole (k * d) d :=
    nearestWhole_mono hd hd (Nat.mul_le_mul_right d h)
  rwa [nearestWhole_mul k hd] at hmono

theorem le_nearestWhole_of_le {n d k : Nat} (hd : 0 < d) (h : k * d ≤ n) :
    k ≤ nearestWhole n d := by
  have hmono : nearestWhole (k * d) d ≤ nearestWhole n d :=
    nearestWhole_mono hd hd (Nat.mul_le_mul_right d h)
  rwa [nearestWhole_mul k hd] at hmono

/-! ## To the grid -/

theorem spacing_pos (units : Nat) : 0 < spacing units := Nat.two_pow_pos _

/-- A count of units has at most 53 bits above the last one of its grid. -/
theorem lt_mul_spacing (units : Nat) : units < 2 ^ 53 * spacing units :=
  (Nat.div_lt_iff_lt_mul (spacing_pos units)).mp (div_spacing_lt units)

/-- `2 ^ k` is a multiple of the spacing below it. -/
theorem spacing_dvd_pow {units k : Nat} (h : Nat.log2 units - 52 ≤ k) : spacing units ∣ 2 ^ k :=
  Nat.pow_dvd_pow 2 h

/-- A quotient up to a multiple of its spacing is not rounded past it. -/
theorem toGrid_le_of_dvd {n d u : Nat} (hd : 0 < d) (hu : spacing (n / d) ∣ u) (h : n ≤ u * d) :
    toGrid n d ≤ u := by
  obtain ⟨k, rfl⟩ := hu
  unfold toGrid
  rw [Nat.mul_comm (spacing _) k]
  refine Nat.mul_le_mul_right _ (nearestWhole_le_of_le (Nat.mul_pos hd (spacing_pos _)) ?_)
  calc n ≤ spacing (n / d) * k * d := h
    _ = k * (d * spacing (n / d)) := by
      rw [Nat.mul_comm _ k, Nat.mul_assoc, Nat.mul_comm d]

theorem le_toGrid_of_dvd {n d u : Nat} (hd : 0 < d) (hu : spacing (n / d) ∣ u) (h : u * d ≤ n) :
    u ≤ toGrid n d := by
  obtain ⟨k, rfl⟩ := hu
  unfold toGrid
  rw [Nat.mul_comm (spacing _) k]
  refine Nat.mul_le_mul_right _ (le_nearestWhole_of_le (Nat.mul_pos hd (spacing_pos _)) ?_)
  calc k * (d * spacing (n / d)) = spacing (n / d) * k * d := by
        rw [Nat.mul_comm _ k, Nat.mul_assoc, Nat.mul_comm d]
    _ ≤ n := h

/-- **Rounding is monotone.** -/
theorem toGrid_mono {n d n' d' : Nat} (hd : 0 < d) (hd' : 0 < d') (h : n * d' ≤ n' * d) :
    toGrid n d ≤ toGrid n' d' := by
  have hq := div_le_div_of_mul_le hd hd' h
  have hlog : Nat.log2 (n / d) ≤ Nat.log2 (n' / d') := by
    rcases Nat.eq_zero_or_pos (n / d) with h0 | h0
    · rw [h0]
      exact Nat.zero_le _
    · rw [Nat.le_log2 (by omega)]
      exact Nat.le_trans (Nat.log2_self_le (by omega)) hq
  rcases Nat.lt_or_ge (Nat.log2 (n / d) - 52) (Nat.log2 (n' / d') - 52) with hlt | hge
  · -- the power of two above the smaller quotient lies on both grids
    have hne : n' / d' ≠ 0 := by
      intro h0
      rw [h0] at hlt
      exact absurd hlt (by simp)
    refine Nat.le_trans (toGrid_le_of_dvd (u := 2 ^ (Nat.log2 (n / d) + 1)) hd
      (spacing_dvd_pow (by omega)) ?_) (Nat.le_trans
        (Nat.pow_le_pow_right (by decide) (by omega : _ ≤ Nat.log2 (n' / d')))
        (le_toGrid_of_dvd hd' (spacing_dvd_pow (Nat.sub_le _ _)) ?_))
    · have := Nat.lt_log2_self (n := n / d)
      rw [Nat.div_lt_iff_lt_mul hd] at this
      exact Nat.le_of_lt this
    · have := Nat.log2_self_le hne
      rwa [Nat.le_div_iff_mul_le hd'] at this
  · -- one grid for both
    have hs : spacing (n / d) = spacing (n' / d') := by
      unfold spacing
      rw [show Nat.log2 (n / d) - 52 = Nat.log2 (n' / d') - 52 by omega]
    unfold toGrid
    rw [hs]
    refine Nat.mul_le_mul_right _ (nearestWhole_mono (Nat.mul_pos hd (spacing_pos _))
      (Nat.mul_pos hd' (spacing_pos _)) ?_)
    rw [← Nat.mul_assoc, ← Nat.mul_assoc]
    exact Nat.mul_le_mul_right _ h

/-- Equal quotients go to one grid point. -/
theorem toGrid_congr {n d n' d' : Nat} (hd : 0 < d) (hd' : 0 < d') (h : n * d' = n' * d) :
    toGrid n d = toGrid n' d' :=
  Nat.le_antisymm (toGrid_mono hd hd' (Nat.le_of_eq h)) (toGrid_mono hd' hd (Nat.le_of_eq h.symm))

/-- The grid points, as if the grid had no top. -/
def IsGridPoint (units : Nat) : Prop := ∃ m e, m < 2 ^ 53 ∧ units = m * 2 ^ e

theorem OnGrid.isGridPoint {units : Nat} (h : OnGrid units) : IsGridPoint units := h.2

theorem isGridPoint_pow (e : Nat) : IsGridPoint (2 ^ e) := ⟨1, e, by decide, (Nat.one_mul _).symm⟩

theorem isGridPoint_mul_pow {m : Nat} (hm : m ≤ 2 ^ 53) (e : Nat) : IsGridPoint (m * 2 ^ e) := by
  rcases Nat.lt_or_eq_of_le hm with h | h
  · exact ⟨m, e, h, rfl⟩
  · rw [h, ← Nat.pow_add]
    exact isGridPoint_pow _

theorem spacing_dvd {units : Nat} (h : IsGridPoint units) : spacing units ∣ units := by
  obtain ⟨m, e, hm, rfl⟩ := h
  rcases Nat.eq_zero_or_pos m with h0 | h0
  · rw [h0, Nat.zero_mul]
    exact Nat.dvd_zero _
  · -- at most 53 bits stand above the last one, so the spacing is at most `2 ^ e`
    have hlog : Nat.log2 (m * 2 ^ e) < 53 + e := by
      rw [Nat.log2_lt (by have := Nat.mul_pos h0 (Nat.two_pow_pos e); omega), Nat.pow_add]
      exact Nat.mul_lt_mul_of_pos_right hm (Nat.two_pow_pos e)
    exact Nat.dvd_trans (spacing_dvd_pow (by omega)) (Nat.dvd_mul_left _ _)

/-- **Rounding is exact on the grid.** -/
theorem toGrid_mul {u : Nat} (hu : IsGridPoint u) {d : Nat} (hd : 0 < d) :
    toGrid (u * d) d = u := by
  have hq : u * d / d = u := Nat.mul_div_cancel u hd
  refine Nat.le_antisymm (toGrid_le_of_dvd hd ?_ (Nat.le_refl _))
    (le_toGrid_of_dvd hd ?_ (Nat.le_refl _)) <;>
  · rw [hq]
    exact spacing_dvd hu

theorem toGrid_zero (d : Nat) : toGrid 0 d = 0 := by
  unfold toGrid nearestWhole
  simp [spacing]

end BenchGate
