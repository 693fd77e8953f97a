import Mathlib.Algebra.Order.Field.Basic
import Mathlib.Algebra.Order.Ring.Rat
import Mathlib.Data.Nat.Cast.Order.Field
import Mathlib.Tactic.Linarith
import Mathlib.Tactic.Positivity
import Mathlib.Tactic.Ring
import BenchGate.Proofs.Binary64.Errors

/-!
# The values of numbers

A finite number has a rational value, its `toRat`, and the result of an operation is the exact
result on the values after one rounding. `Rounds v z` says that `z` is what the exact value `v` is
rounded to. Everything that is said of computed numbers in terms of exact arithmetic follows from
this relation:

* it is monotone, and a number rounds its own value, so a computed number is above another number
  only if the exact value is;
* from `2 ^ -1022` on, the error is at most `roundoff` of the exact value, and of the rounded one;
* of a value in `[0, 1]`, the error is at most half of `roundoff`.
-/

namespace BenchGate

attribute [local irreducible] unitsInOne unitsAtTop Binary64.gapBelowOne

/-- The largest relative error of a rounding. -/
def roundoff : ℚ := 1 / 2 ^ 53

theorem roundoff_pos : 0 < roundoff := by
  unfold roundoff
  positivity

namespace Binary64

/-- The value of a finite number; of an infinity, the end of the finite ones. -/
def toRat (x : Binary64) : ℚ := x.key / unitsInOne

theorem unitsInOne_cast_pos : (0 : ℚ) < unitsInOne := Nat.cast_pos.mpr unitsInOne_pos

theorem toRat_mul_unitsInOne (x : Binary64) : x.toRat * unitsInOne = x.key :=
  div_mul_cancel₀ _ (ne_of_gt unitsInOne_cast_pos)

theorem roundoff_mul_unitsInOne : roundoff * unitsInOne = gapBelowOne := by
  rw [unitsInOne_eq]
  unfold roundoff
  push_cast
  ring

variable {x y : Binary64}

theorem toRat_lt_toRat : x.toRat < y.toRat ↔ x.key < y.key := by
  unfold toRat
  rw [div_lt_div_iff_of_pos_right unitsInOne_cast_pos, Int.cast_lt]

theorem toRat_mono (h : x ≤ y) : x.toRat ≤ y.toRat := by
  unfold toRat
  rw [div_le_div_iff_of_pos_right unitsInOne_cast_pos, Int.cast_le]
  exact h.2.2

/-- Counts of up to 53 bits are their own values. -/
theorem toRat_ofNat {n : Nat} (h : n ≤ 2 ^ 53) : (ofNat n).toRat = n := by
  unfold toRat
  rw [key_ofNat_of_le h, Int.cast_natCast, Nat.cast_mul]
  exact mul_div_cancel_right₀ _ (ne_of_gt unitsInOne_cast_pos)

theorem toRat_zero : (0 : Binary64).toRat = 0 := toRat_ofNat (by decide)

theorem toRat_one : (1 : Binary64).toRat = 1 := by
  have hone := toRat_ofNat (n := 1) (by decide)
  rwa [Nat.cast_one] at hone

theorem toRat_nonneg (h : 0 ≤ x) : 0 ≤ x.toRat := by
  have hvalue := toRat_mono h
  rwa [toRat_zero] at hvalue

theorem toRat_pos (h : 0 < x) : 0 < x.toRat := by
  have hkey := toRat_lt_toRat.mpr h.2.2
  rwa [toRat_zero] at hkey

/-! ## Rounding -/

/-- A number is what an exact value is rounded to. -/
def Rounds (v : ℚ) (z : Binary64) : Prop :=
  z ≠ nan ∧ ∃ (n : Int) (d : Nat), 0 < d ∧ v * unitsInOne * d = n ∧ z.key = roundedKey n d

theorem rounds_toRat (hx : x.isFinite = true) : Rounds x.toRat x := by
  have hkey := roundedKey_mul (isGridPoint_key hx) (Nat.le_of_lt (abs_key_lt_top hx)) Nat.one_pos
  refine ⟨ne_nan_of_isFinite hx, x.key * (1 : Nat), 1, Nat.one_pos, ?_, hkey.symm⟩
  rw [toRat_mul_unitsInOne]
  push_cast
  rfl

theorem add_toRat_mul_unitsInOne (x y : Binary64) :
    (x.toRat + y.toRat) * unitsInOne = (x.key + y.key : Int) := by
  rw [add_mul, toRat_mul_unitsInOne, toRat_mul_unitsInOne, Int.cast_add]

theorem rounds_add (hx : x.isFinite = true) (hy : y.isFinite = true) :
    Rounds (x.toRat + y.toRat) (x + y) := by
  obtain ⟨hnan, hkey⟩ := add_finite hx hy
  refine ⟨hnan, x.key + y.key, 1, Nat.one_pos, ?_, hkey⟩
  rw [add_toRat_mul_unitsInOne, Nat.cast_one, mul_one]

theorem sub_toRat_mul_unitsInOne (x y : Binary64) :
    (x.toRat - y.toRat) * unitsInOne = (x.key - y.key : Int) := by
  rw [sub_mul, toRat_mul_unitsInOne, toRat_mul_unitsInOne, Int.cast_sub]

theorem rounds_sub (hx : x.isFinite = true) (hy : y.isFinite = true) :
    Rounds (x.toRat - y.toRat) (x - y) := by
  obtain ⟨hnan, hkey⟩ := sub_finite hx hy
  refine ⟨hnan, x.key - y.key, 1, Nat.one_pos, ?_, hkey⟩
  rw [sub_toRat_mul_unitsInOne, Nat.cast_one, mul_one]

theorem rounds_mul (hx : x.isFinite = true) (hy : y.isFinite = true) :
    Rounds (x.toRat * y.toRat) (x * y) := by
  obtain ⟨hnan, hkey⟩ := mul_finite hx hy
  refine ⟨hnan, x.key * y.key, unitsInOne, unitsInOne_pos, ?_, hkey⟩
  calc x.toRat * y.toRat * unitsInOne * unitsInOne
      = (x.toRat * unitsInOne) * (y.toRat * unitsInOne) := by ring
    _ = (x.key * y.key : Int) := by
      rw [toRat_mul_unitsInOne, toRat_mul_unitsInOne]
      push_cast
      rfl

theorem rounds_div (hx : x.isFinite = true) (hy : y.isFinite = true) (h0 : 0 < y) :
    Rounds (x.toRat / y.toRat) (x / y) := by
  have hpos := (zero_lt_iff.mp h0).2
  obtain ⟨hnan, hkey⟩ := div_finite hx hy hpos
  refine ⟨hnan, x.key * unitsInOne, y.key.natAbs, by omega, ?_, hkey⟩
  have hunits : ((y.key.natAbs : Nat) : ℚ) = y.toRat * unitsInOne := by
    rw [toRat_mul_unitsInOne, ← Int.cast_natCast, Int.natAbs_of_nonneg (Int.le_of_lt hpos)]
  have hne : y.toRat ≠ 0 := ne_of_gt (toRat_pos h0)
  calc x.toRat / y.toRat * unitsInOne * y.key.natAbs
      = x.toRat / y.toRat * y.toRat * (unitsInOne * unitsInOne) := by
        rw [hunits]
        ring
    _ = x.toRat * unitsInOne * unitsInOne := by rw [div_mul_cancel₀ _ hne, mul_assoc]
    _ = (x.key * unitsInOne : Int) := by
      rw [toRat_mul_unitsInOne]
      push_cast
      rfl

namespace Rounds

variable {v w : ℚ}

/-- **Rounding is monotone.** -/
theorem mono (hx : Rounds v x) (hy : Rounds w y) (h : v ≤ w) : x ≤ y := by
  obtain ⟨hxnan, n, d, hd, hn, hxkey⟩ := hx
  obtain ⟨hynan, n', d', hd', hn', hykey⟩ := hy
  refine ⟨hxnan, hynan, ?_⟩
  rw [hxkey, hykey]
  refine roundedKey_mono_mul hd hd' ?_
  have hmul : v * (unitsInOne * d * d') ≤ w * (unitsInOne * d * d') :=
    mul_le_mul_of_nonneg_right h (by positivity)
  have hexact : (n : ℚ) * d' ≤ n' * d := by
    rw [← hn, ← hn']
    linarith
  exact_mod_cast hexact

/-- Numbers in order round exact values in order. -/
theorem lt_of_lt (hx : Rounds v x) (hy : Rounds w y) (h : x < y) : v < w := by
  by_contra hle
  exact Int.not_lt.mpr (hy.mono hx (not_lt.mp hle)).2.2 h.2.2

/-- A rounded result is above a number only if the exact one is. -/
theorem lt_of_toRat_lt {p : Binary64} (hp : p.isFinite = true) (hx : Rounds v x) (h : p < x) :
    p.toRat < v :=
  (rounds_toRat hp).lt_of_lt hx h

theorem nonneg (hx : Rounds v x) (h : 0 ≤ v) : 0 ≤ x := by
  rw [← toRat_zero] at h
  exact (rounds_toRat isFinite_zero).mono hx h

theorem le_one (hx : Rounds v x) (h : v ≤ 1) : x ≤ 1 := by
  rw [← toRat_one] at h
  exact hx.mono (rounds_toRat isFinite_one) h

theorem one_le (hx : Rounds v x) (h : 1 ≤ v) : 1 ≤ x := by
  rw [← toRat_one] at h
  exact (rounds_toRat isFinite_one).mono hx h

/-- A value on the grid is not rounded. -/
theorem toRat_eq (hx : Rounds v x) {k : Int} (hk : IsGridPoint k.natAbs)
    (htop : k.natAbs ≤ unitsAtTop) (hv : v * unitsInOne = k) : x.toRat = v := by
  obtain ⟨-, n, d, hd, hn, hkey⟩ := hx
  have hn' : n = k * d := by
    rw [hv] at hn
    exact_mod_cast hn.symm
  rw [hn', roundedKey_mul hk htop hd] at hkey
  refine mul_right_cancel₀ (ne_of_gt unitsInOne_cast_pos) ?_
  rw [toRat_mul_unitsInOne, hkey, hv]

theorem toRat_eq_zero (hx : Rounds 0 x) : x.toRat = 0 :=
  hx.toRat_eq (k := 0) ⟨0, 0, by decide, rfl⟩ (Nat.zero_le _) (by rw [zero_mul, Int.cast_zero])

/-- A value that is not negative goes to a grid point, unless the grid has ended there. -/
theorem exists_toGrid (hx : Rounds v x) (h0 : 0 ≤ v) :
    ∃ k d : Nat, 0 < d ∧ v * (unitsInOne * d) = k ∧
      x.toRat * (unitsInOne * d) ≤ toGrid k d * d ∧
      (x.isFinite = true → x.toRat * (unitsInOne * d) = toGrid k d * d) := by
  obtain ⟨-, n, d, hd, hn, hkey⟩ := hx
  have hn0 : (0 : ℚ) ≤ n := by
    rw [← hn]
    positivity
  obtain ⟨k, rfl⟩ := Int.eq_ofNat_of_zero_le (show 0 ≤ n by exact_mod_cast hn0)
  rw [roundedKey_natCast] at hkey
  have hrounded : x.toRat * (unitsInOne * d) = (roundedUnits k d * d : Nat) := by
    rw [← mul_assoc, toRat_mul_unitsInOne, hkey]
    push_cast
    rfl
  refine ⟨k, d, hd, by rw [← mul_assoc, hn, Int.cast_natCast], ?_, fun hfin => ?_⟩
  · rw [hrounded]
    exact_mod_cast Nat.mul_le_mul_right d (Nat.min_le_left _ _)
  · have htop := abs_key_lt_top hfin
    rw [hkey, Int.natAbs_natCast] at htop
    have huncapped : roundedUnits k d = toGrid k d := by
      unfold roundedUnits at htop ⊢
      omega
    rw [hrounded, huncapped, Nat.cast_mul]

/-- **No number is nearer to a value than what the value is rounded to.** -/
theorem closest (hx : Rounds v x) (h0 : 0 ≤ v) (hfin : x.isFinite = true)
    (hy : y.isFinite = true) : |x.toRat - v| ≤ |y.toRat - v| := by
  obtain ⟨k, d, hd, hexact, -, huncapped⟩ := hx.exists_toGrid h0
  have hscale : (0 : ℚ) < unitsInOne * d := mul_pos unitsInOne_cast_pos (Nat.cast_pos.mpr hd)
  have hdistance (z : Binary64) :
      |z.toRat - v| * (unitsInOne * d) = |z.toRat * (unitsInOne * d) - k| := by
    rw [← hexact, ← sub_mul, abs_mul, abs_of_pos hscale]
  have hgrid (w : Nat) (hw : IsGridPoint w) :
      |x.toRat - v| * (unitsInOne * d) ≤ |(w * d - k : ℚ)| := by
    have hclosest : |((toGrid k d * d : Nat) - k : Int)| ≤ |((w * d : Nat) - k : Int)| := by
      rw [Int.abs_eq_natAbs, Int.abs_eq_natAbs]
      exact_mod_cast toGrid_closest hd hw
    rw [hdistance, huncapped hfin]
    exact_mod_cast hclosest
  refine le_of_mul_le_mul_right ?_ hscale
  rcases Int.le_total 0 y.key with hkey | hkey
  · obtain ⟨w, hw⟩ := Int.eq_ofNat_of_zero_le hkey
    have hpoint := isGridPoint_key hy
    rw [hw, Int.natAbs_natCast] at hpoint
    have hunits : y.toRat * (unitsInOne * d) = w * d := by
      rw [← mul_assoc, toRat_mul_unitsInOne, hw, Int.cast_natCast]
    rw [hdistance y, hunits]
    exact hgrid w hpoint
  · -- from below zero, zero is on the way to the value
    have hvalue : y.toRat ≤ 0 := by
      have hle : y.key ≤ (0 : Binary64).key := by rwa [key_zero_literal]
      rw [← toRat_zero]
      exact not_lt.mp (mt toRat_lt_toRat.mp (Int.not_lt.mpr hle))
    calc |x.toRat - v| * (unitsInOne * d) ≤ |((0 : Nat) * d - k : ℚ)| :=
          hgrid 0 ⟨0, 0, by decide, rfl⟩
      _ = v * (unitsInOne * d) := by
        rw [Nat.cast_zero, zero_mul, zero_sub, abs_neg, abs_of_nonneg (Nat.cast_nonneg k), hexact]
      _ ≤ |y.toRat - v| * (unitsInOne * d) := by
        refine mul_le_mul_of_nonneg_right ?_ (le_of_lt hscale)
        calc v ≤ v - y.toRat := (le_sub_self_iff v).mpr hvalue
          _ ≤ |v - y.toRat| := le_abs_self _
          _ = |y.toRat - v| := abs_sub_comm _ _

/-- **The relative error of rounding**, where the grid has its 53 bits. -/
theorem relative (hx : Rounds v x) (h : 2 ^ 52 ≤ v * unitsInOne) :
    x.toRat ≤ v * (1 + roundoff) ∧ (x.isFinite = true → v ≤ x.toRat * (1 + roundoff)) := by
  have hv0 : 0 ≤ v := by
    by_contra hneg
    have := mul_neg_of_neg_of_pos (not_le.mp hneg) unitsInOne_cast_pos
    linarith
  obtain ⟨k, d, hd, hexact, hcapped, huncapped⟩ := hx.exists_toGrid hv0
  have hscale : (0 : ℚ) < unitsInOne * d := mul_pos unitsInOne_cast_pos (Nat.cast_pos.mpr hd)
  have hbits : 2 ^ 52 * d ≤ k := by
    have hmul := mul_le_mul_of_nonneg_right h (Nat.cast_nonneg (α := ℚ) d)
    rw [mul_assoc, hexact] at hmul
    exact_mod_cast hmul
  obtain ⟨habove, hbelow⟩ := toGrid_relative hd hbits
  have habove' : (2 : ℚ) ^ 53 * (toGrid k d * d) ≤ (2 ^ 53 + 1) * k := by exact_mod_cast habove
  have hbelow' : (2 : ℚ) ^ 53 * k ≤ (2 ^ 53 + 1) * (toGrid k d * d) := by exact_mod_cast hbelow
  constructor
  · refine le_of_mul_le_mul_right ?_ hscale
    calc x.toRat * (unitsInOne * d) ≤ toGrid k d * d := hcapped
      _ ≤ k * (1 + roundoff) := by unfold roundoff; linarith
      _ = v * (1 + roundoff) * (unitsInOne * d) := by rw [← hexact]; ring
  · intro hfin
    refine le_of_mul_le_mul_right ?_ hscale
    calc v * (unitsInOne * d) = k := hexact
      _ ≤ toGrid k d * d * (1 + roundoff) := by unfold roundoff; linarith
      _ = x.toRat * (1 + roundoff) * (unitsInOne * d) := by rw [← huncapped hfin]; ring

/-- The grid has its bits from `roundoff` on, and far below it. -/
theorem relative_of_roundoff_le (hx : Rounds v x) (h : roundoff ≤ v) :
    x.toRat ≤ v * (1 + roundoff) ∧ (x.isFinite = true → v ≤ x.toRat * (1 + roundoff)) := by
  have hgap : 2 ^ 52 ≤ gapBelowOne := by
    unfold gapBelowOne
    exact Nat.le_of_lt (two_pow_lt_two_pow 52 1021 (by decide))
  refine hx.relative ?_
  calc (2 : ℚ) ^ 52 ≤ gapBelowOne := by exact_mod_cast hgap
    _ = roundoff * unitsInOne := roundoff_mul_unitsInOne.symm
    _ ≤ v * unitsInOne := mul_le_mul_of_nonneg_right h (le_of_lt unitsInOne_cast_pos)

/-- **The absolute error of rounding** a value in `[0, 1]`. -/
theorem absolute (hx : Rounds v x) (h0 : 0 ≤ v) (h1 : v ≤ 1) : |x.toRat - v| ≤ roundoff / 2 := by
  have hfin : x.isFinite = true := isFinite_of_le (hx.nonneg h0) (hx.le_one h1) isFinite_one
  obtain ⟨k, d, hd, hexact, -, huncapped⟩ := hx.exists_toGrid h0
  have hrounded := huncapped hfin
  have hscale : (0 : ℚ) < unitsInOne * d := mul_pos unitsInOne_cast_pos (Nat.cast_pos.mpr hd)
  have hk : k ≤ unitsInOne * d := by
    have hle := mul_le_mul_of_nonneg_right h1 (le_of_lt hscale)
    rw [hexact, one_mul] at hle
    exact_mod_cast hle
  obtain ⟨habove, hbelow⟩ := toGrid_absolute_of_le_one hd hk
  have habove' : (2 : ℚ) * (toGrid k d * d) ≤ 2 * k + gapBelowOne * d := by exact_mod_cast habove
  have hbelow' : (2 : ℚ) * k ≤ 2 * (toGrid k d * d) + gapBelowOne * d := by exact_mod_cast hbelow
  rw [← roundoff_mul_unitsInOne] at habove' hbelow'
  rw [abs_le]
  constructor
  · refine le_of_mul_le_mul_right ?_ hscale
    linarith
  · refine le_of_mul_le_mul_right ?_ hscale
    linarith

end Rounds

/-! ## Shares -/

/-- A number is what a share is rounded to. -/
structure RoundsShare (v : ℚ) (x : Binary64) : Prop where
  rounds : Rounds v x
  nonneg : 0 ≤ v
  le_one : v ≤ 1

namespace RoundsShare

variable {v : ℚ} (h : RoundsShare v x)
include h

theorem isFinite : x.isFinite = true :=
  isFinite_of_le (h.rounds.nonneg h.nonneg) (h.rounds.le_one h.le_one) isFinite_one

theorem near : |x.toRat - v| ≤ roundoff / 2 := h.rounds.absolute h.nonneg h.le_one

theorem toRat_bounds : 0 ≤ x.toRat ∧ x.toRat ≤ 1 := by
  have hone := toRat_mono (h.rounds.le_one h.le_one)
  rw [toRat_one] at hone
  exact ⟨toRat_nonneg (h.rounds.nonneg h.nonneg), hone⟩

/-- A share that is not above another after rounding is hardly above it. -/
theorem le_add_of_not_lt {w : ℚ} (hy : RoundsShare w y) (hle : ¬ y < x) : v ≤ w + roundoff := by
  obtain ⟨hvx, -⟩ := abs_le.mp h.near
  obtain ⟨-, hyw⟩ := abs_le.mp hy.near
  have hrounded := toRat_mono ((not_lt_iff hy.rounds.1 h.rounds.1).mp hle)
  linarith

end RoundsShare

section Shares

variable {part whole : Nat} (h0 : 0 < whole) (hle : part ≤ whole)
include h0 hle

/-- Counts of up to 53 bits are exact, so that their share is rounded once. -/
theorem roundsShare_share (hwhole : whole ≤ 2 ^ 53) :
    RoundsShare (part / whole) (share part whole) := by
  refine ⟨?_, by positivity, div_le_one_of_le₀ (Nat.cast_le.mpr hle) (Nat.cast_nonneg _)⟩
  rw [share, if_neg (Nat.ne_of_gt h0), ← toRat_ofNat (Nat.le_trans hle hwhole),
    ← toRat_ofNat hwhole]
  exact rounds_div (isFinite_ofNat (by omega)) (isFinite_ofNat (by omega))
    (zero_lt_iff.mpr ⟨ofNat_ne_nan _, key_pos_of_one_le (one_le_ofNat h0)⟩)

/-- Shares of one whole are further apart than two roundings go. -/
theorem toRat_share_lt {smaller : Nat} (hlt : smaller < part) (hwhole : whole < 2 ^ 53) :
    (share smaller whole).toRat < (share part whole).toRat := by
  have hsmaller : RoundsShare (smaller / whole) (share smaller whole) :=
    roundsShare_share h0 (by omega) (Nat.le_of_lt hwhole)
  have hpart := roundsShare_share h0 hle (Nat.le_of_lt hwhole)
  obtain ⟨-, habove⟩ := abs_le.mp hsmaller.near
  obtain ⟨hbelow, -⟩ := abs_le.mp hpart.near
  have hpos : (0 : ℚ) < whole := Nat.cast_pos.mpr h0
  have hgap : roundoff < 1 / whole :=
    one_div_lt_one_div_of_lt hpos (by exact_mod_cast hwhole)
  have hstep : (smaller / whole + 1 / whole : ℚ) ≤ part / whole := by
    rw [← add_div]
    gcongr
    exact_mod_cast hlt
  linarith

end Shares

/-! ## Differences -/

section Differences

variable (hx : x.isFinite = true) (hy : y.isFinite = true) (h0 : 0 ≤ y) (h : y ≤ x)
include hx hy h0 h

theorem sub_bounds : 0 ≤ x - y ∧ x - y ≤ x := by
  have hrounds := rounds_sub hx hy
  have hle := toRat_mono h
  have hnonneg := toRat_nonneg h0
  exact ⟨hrounds.nonneg (by linarith), hrounds.mono (rounds_toRat hx) (by linarith)⟩

theorem isFinite_sub : (x - y).isFinite = true :=
  isFinite_of_le (sub_bounds hx hy h0 h).1 (sub_bounds hx hy h0 h).2 hx

/-- **If one number is at most twice another, then their difference is exact.** -/
theorem toRat_sub_of_le_twice (htwice : x.toRat ≤ 2 * y.toRat) :
    (x - y).toRat = x.toRat - y.toRat := by
  have hnonneg := (zero_le_iff.mp h0).2
  have hkey := h.2.2
  have htop := abs_key_le_top x
  have hle : x.key ≤ 2 * y.key := by
    have hmul := mul_le_mul_of_nonneg_right htwice (le_of_lt unitsInOne_cast_pos)
    rw [mul_assoc, toRat_mul_unitsInOne, toRat_mul_unitsInOne] at hmul
    exact_mod_cast hmul
  have hgrid : IsGridPoint (x.key.natAbs - y.key.natAbs) :=
    isGridPoint_sub (isGridPoint_key hy) (isGridPoint_key hx) (by omega) (by omega)
  have habs : (x.key - y.key).natAbs = x.key.natAbs - y.key.natAbs := by omega
  rw [← habs] at hgrid
  exact (rounds_sub hx hy).toRat_eq hgrid (by omega) (sub_toRat_mul_unitsInOne x y)

/-- Differences are exact or have their 53 bits. -/
theorem sub_relative :
    (x - y).toRat ≤ (x.toRat - y.toRat) * (1 + roundoff) ∧
      x.toRat - y.toRat ≤ (x - y).toRat * (1 + roundoff) := by
  have hvalue := sub_toRat_mul_unitsInOne x y
  have hnonneg := (zero_le_iff.mp h0).2
  have hkey := h.2.2
  by_cases hsmall : (x.key - y.key).natAbs ≤ 2 ^ 53
  · have hgrid := isGridPoint_mul_pow hsmall 0
    have htop := abs_key_le_top x
    rw [Nat.pow_zero, Nat.mul_one] at hgrid
    have hexact := (rounds_sub hx hy).toRat_eq hgrid (by omega) hvalue
    have hle : 0 ≤ x.toRat - y.toRat := sub_nonneg.mpr (toRat_mono h)
    have hone : (1 : ℚ) ≤ 1 + roundoff := by
      have := roundoff_pos
      linarith
    rw [hexact]
    exact ⟨le_mul_of_one_le_right hle hone, le_mul_of_one_le_right hle hone⟩
  · have hbits : (2 : ℚ) ^ 52 ≤ (x.toRat - y.toRat) * unitsInOne := by
      rw [hvalue]
      exact_mod_cast (show 2 ^ 52 ≤ x.key - y.key by omega)
    obtain ⟨habove, hbelow⟩ := (rounds_sub hx hy).relative hbits
    exact ⟨habove, hbelow (isFinite_sub hx hy h0 h)⟩

omit h in
/-- The difference of two numbers is not much smaller than they are. -/
theorem toRat_le_mul_sub (hlt : y < x) : y.toRat ≤ 2 ^ 53 * (x - y).toRat := by
  have hnonneg := (zero_le_iff.mp h0).2
  have hkey := hlt.2.2
  have htop := abs_key_le_top x
  have hstep : spacing y.key.natAbs ≤ x.key.natAbs - y.key.natAbs :=
    Nat.le_of_dvd (by omega)
      (spacing_dvd_sub (isGridPoint_key hy) (isGridPoint_key hx) (by omega))
  have hdiff : (spacing y.key.natAbs : Int) ≤ (x - y).key := by
    rw [(sub_finite hx hy).2]
    refine le_roundedKey ?_ ?_ Nat.one_pos ?_
    · rw [Int.natAbs_natCast]
      exact isGridPoint_pow _
    · rw [Int.natAbs_natCast]
      omega
    · omega
  have hbits := lt_mul_spacing y.key.natAbs
  have hle : y.key ≤ 2 ^ 53 * (x - y).key := by omega
  have hscaled : (y.key : ℚ) ≤ 2 ^ 53 * (x - y).key := by exact_mod_cast hle
  refine le_of_mul_le_mul_right ?_ unitsInOne_cast_pos
  rw [mul_assoc, toRat_mul_unitsInOne, toRat_mul_unitsInOne]
  exact hscaled

end Differences

end Binary64

end BenchGate
