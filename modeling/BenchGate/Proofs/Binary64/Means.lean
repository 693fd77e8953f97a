import Mathlib.Algebra.BigOperators.Group.List.Basic
import Mathlib.Data.Nat.Log
import BenchGate.Proofs.Binary64.Sums
import BenchGate.Proofs.Binary64.Values

/-!
# Means

A mean is a sum from left to right and one division. What is known of the sum depends on what is
summed:

* counts that add up to `2 ^ 53` at most are summed without rounding, so their mean is rounded once,
  and a division by a power of two adds no rounding to that;
* numbers up to a bound add up to at most its multiple, as long as the multiples of the bound are
  numbers themselves;
* numbers that are not negative add up to at most the exact sum and one `roundoff` for each addition
  after the first.

The division keeps the order, so a mean is above a bound only if the computed sum is above the
multiple of the bound, or has overflowed.
-/

namespace BenchGate

/-! ## The grid under a power of two -/

theorem log2_div_pow (n k : Nat) : Nat.log2 (n / 2 ^ k) = Nat.log2 n - k := by
  rw [Nat.log2_eq_log_two, Nat.log2_eq_log_two]
  exact Nat.log_div_base_pow 2 n k

/-- Where a number has bits to spare, dividing it by a power of two only moves the grid. -/
theorem toGrid_mul_pow {n d k : Nat} (hd : 0 < d) (h : 2 ^ (52 + k) * d ≤ n) :
    toGrid n (d * 2 ^ k) * 2 ^ k = toGrid n d := by
  have hq : 2 ^ (52 + k) ≤ n / d := (Nat.le_div_iff_mul_le hd).mpr h
  have hlog : 52 + k ≤ Nat.log2 (n / d) := by
    refine (Nat.le_log2 ?_).mpr hq
    have := Nat.two_pow_pos (52 + k)
    omega
  have hspacing : 2 ^ k * spacing (n / (d * 2 ^ k)) = spacing (n / d) := by
    unfold spacing
    rw [← Nat.div_div_eq_div_mul, log2_div_pow, ← Nat.pow_add]
    congr 1
    omega
  unfold toGrid
  rw [Nat.mul_assoc d, hspacing, Nat.mul_assoc, Nat.mul_comm (spacing _) (2 ^ k), hspacing]

attribute [local irreducible] unitsInOne unitsAtTop Binary64.gapBelowOne

namespace Binary64

/-! ## Sums of counts -/

/-- Numbers without a sign are told apart by their keys, zeros among them. -/
theorem Unsigned.eq_of_key_eq {x y : Binary64} (hx : x.Unsigned) (hy : y.Unsigned)
    (h : x.key = y.key) : x = y := by
  cases x with
  | nan => exact hx.elim
  | infinity s =>
      obtain rfl : s = false := hx
      exact (eq_infinity_of_top_le (Int.le_of_eq h)).symm
  | finite s m =>
      obtain rfl : s = false := hx
      cases y with
      | nan => exact hy.elim
      | infinity t =>
          obtain rfl : t = false := hy
          exact eq_infinity_of_top_le (Int.le_of_eq h.symm)
      | finite t m' =>
          obtain rfl : t = false := hy
          obtain ⟨u, hu⟩ := m
          obtain ⟨u', hu'⟩ := m'
          obtain rfl : u = u' := Int.ofNat.inj h
          rfl

theorem Unsigned.exists_magnitude {x : Binary64} (h : x.Unsigned) (hx : x.isFinite = true) :
    ∃ m, x = finite false m ∧ x.key = m.units := by
  obtain ⟨s, m, rfl⟩ := isFinite_iff.mp hx
  obtain rfl : s = false := h
  exact ⟨m, rfl, rfl⟩

theorem unsigned_ofNat (n : Nat) : (ofNat n).Unsigned := unsigned_ofUnits _ _

/-- A count whose units are known is a magnitude of them. -/
theorem exists_magnitude_ofNat {n units : Nat} (hfin : (ofNat n).isFinite = true)
    (hkey : (ofNat n).key = units) :
    ∃ m : Magnitude, ofNat n = finite false m ∧ m.units = units := by
  obtain ⟨m, hm, hunits⟩ := (unsigned_ofNat n).exists_magnitude hfin
  exact ⟨m, hm, Int.ofNat.inj (hunits.symm.trans hkey)⟩

/-- Counts with an exact sum are added without rounding. -/
theorem ofNat_add_ofNat {a b : Nat} (h : a + b ≤ 2 ^ 53) : ofNat a + ofNat b = ofNat (a + b) := by
  refine ((unsigned_ofNat a).add (ofNat_nonneg b)).eq_of_key_eq (unsigned_ofNat _) ?_
  have hkey := (add_finite (isFinite_ofNat (n := a) (by omega))
    (isFinite_ofNat (n := b) (by omega))).2
  have hgrid := isGridPoint_mul_unitsInOne h
  have htop := Nat.le_of_lt (mul_unitsInOne_lt_top h (by decide))
  rw [hkey, key_ofNat_of_le (by omega), key_ofNat_of_le (by omega), key_ofNat_of_le h,
    ← Int.natCast_add, ← Nat.add_mul, ← Nat.mul_one ((a + b) * unitsInOne), roundedKey_natCast,
    roundedUnits_mul hgrid htop Nat.one_pos, Nat.mul_one]

/-- **Counts that add up to 53 bits are summed without rounding.** -/
theorem foldl_add_ofNat (counts : List Nat) {a : Nat} (h : a + counts.sum ≤ 2 ^ 53) :
    (counts.map ofNat).foldl (· + ·) (ofNat a) = ofNat (a + counts.sum) := by
  induction counts generalizing a with
  | nil => rw [List.map_nil, List.foldl_nil, List.sum_nil, Nat.add_zero]
  | cons n counts ih =>
      rw [List.sum_cons] at h
      rw [List.map_cons, List.foldl_cons, ofNat_add_ofNat (by omega), ih (by omega), List.sum_cons,
        Nat.add_assoc]

/-- The nearest number to a quotient is what the quotient is rounded to. -/
theorem rounds_nearest (n : Nat) {d : Nat} (hd : 0 < d) : Rounds (n / d) (nearest false n d) := by
  have hne : (d : ℚ) ≠ 0 := Nat.cast_ne_zero.mpr (Nat.ne_of_gt hd)
  refine ⟨ofUnits_ne_nan _ _ _, (n * unitsInOne : Nat), d, hd, ?_, ?_⟩
  · calc (n / d : ℚ) * unitsInOne * d = n / d * d * unitsInOne := mul_right_comm _ _ _
      _ = ((n * unitsInOne : Nat) : Int) := by
        rw [div_mul_cancel₀ _ hne]
        push_cast
        rfl
  · rw [nearest, key_ofUnits_signed, if_neg Bool.false_ne_true]

/-- The quotient of counts of up to 53 bits is rounded once. -/
theorem ofNat_div_ofNat {a b : Nat} (h0 : 0 < b) (ha : a ≤ 2 ^ 53) (hb : b ≤ 2 ^ 53) :
    ofNat a / ofNat b = nearest false a b := by
  obtain ⟨m, hm, hmunits⟩ := exists_magnitude_ofNat (isFinite_ofNat (by omega)) (key_ofNat_of_le ha)
  obtain ⟨m', hm', hmunits'⟩ :=
    exists_magnitude_ofNat (isFinite_ofNat (by omega)) (key_ofNat_of_le hb)
  have hpos : 0 < m'.units := by
    rw [hmunits']
    exact Nat.mul_pos h0 unitsInOne_pos
  rw [hm, hm', finite_div_finite false m hpos]
  refine ofUnits_congr (toGrid_congr hpos h0 ?_)
  rw [hmunits, hmunits', Nat.mul_assoc, Nat.mul_comm unitsInOne b]

/-- **The mean of counts that add up to 53 bits is rounded once.** -/
theorem mean_ofNat {counts : List Nat} (hne : counts ≠ []) (hsum : counts.sum ≤ 2 ^ 53)
    (hlen : counts.length ≤ 2 ^ 53) :
    mean (counts.map ofNat) = nearest false counts.sum counts.length := by
  have hfold := foldl_add_ofNat counts (a := 0) (by omega)
  have hempty : (counts.map ofNat).isEmpty = false := by
    cases counts with
    | nil => exact absurd rfl hne
    | cons n counts => rfl
  rw [Nat.zero_add] at hfold
  unfold mean
  rw [hempty, if_neg Bool.false_ne_true, List.length_map]
  exact hfold ▸ ofNat_div_ofNat (List.length_pos_iff.mpr hne) hsum hlen

/-! ## Division by a power of two -/

theorem units_of_ofUnits_eq {s t : Bool} {n d : Nat} {m : Magnitude}
    (h : ofUnits s n d = finite t m) : m.units = toGrid n d := by
  unfold ofUnits at h
  split at h
  · cases h
    rfl
  · cases h

section Scaling

variable {a b k : Nat} (h0 : 0 < b) (ha : a ≤ 2 ^ 53) (hb : b ≤ 2 ^ 53) (hk : k ≤ 900)
include h0 ha hb

theorem isFinite_nearest : (nearest false a b).isFinite = true := by
  rw [← ofNat_div_ofNat h0 ha hb]
  exact isFinite_div (isFinite_ofNat (by omega)) (ofNat_nonneg a) (isFinite_ofNat (by omega))
    (one_le_ofNat h0)

include hk

/-- A quotient of counts has bits to spare. -/
theorem toGrid_nearest_mul_pow :
    toGrid (a * unitsInOne) (b * 2 ^ k) * 2 ^ k = toGrid (a * unitsInOne) b := by
  rcases Nat.eq_zero_or_pos a with rfl | hpos
  · rw [Nat.zero_mul, toGrid_zero, toGrid_zero, Nat.zero_mul]
  · refine toGrid_mul_pow h0 ?_
    have hpow : 2 ^ (52 + k) * 2 ^ 53 ≤ unitsInOne :=
      calc 2 ^ (52 + k) * 2 ^ 53 = 2 ^ (52 + k + 53) := (Nat.pow_add 2 (52 + k) 53).symm
        _ ≤ 2 ^ 1074 := pow_le_pow_right₀ (by decide) (by omega)
        _ = unitsInOne := unitsInOne_eq_pow.symm
    calc 2 ^ (52 + k) * b ≤ 2 ^ (52 + k) * 2 ^ 53 := Nat.mul_le_mul_left _ hb
      _ ≤ unitsInOne := hpow
      _ ≤ a * unitsInOne := Nat.le_mul_of_pos_left _ hpos

/-- **Dividing a rounded quotient by a power of two adds no rounding.** -/
theorem nearest_div_pow :
    nearest false a b / ofNat (2 ^ k) = nearest false a (b * 2 ^ k) ∧
      (nearest false a (b * 2 ^ k)).toRat = (nearest false a b).toRat / 2 ^ k := by
  have hmove := toGrid_nearest_mul_pow h0 ha hb hk
  have hfin := isFinite_nearest h0 ha hb
  have hpow := isFinite_ofNat_pow (k := k) (by omega)
  obtain ⟨m, hm, hkey⟩ := (unsigned_ofUnits (a * unitsInOne) b).exists_magnitude hfin
  obtain ⟨m', hm', hunits'⟩ := exists_magnitude_ofNat hpow (key_ofNat_pow (by omega))
  have hunits : m.units = toGrid (a * unitsInOne) (b * 2 ^ k) * 2 ^ k :=
    (units_of_ofUnits_eq hm).trans hmove.symm
  have hpos : 0 < m'.units := by
    rw [hunits']
    exact Nat.mul_pos (Nat.two_pow_pos k) unitsInOne_pos
  have hgrid : IsGridPoint (toGrid (a * unitsInOne) (b * 2 ^ k)) := toGrid_eq_mul_pow _ _
  have hquotient : nearest false a b / ofNat (2 ^ k) = nearest false a (b * 2 ^ k) := by
    rw [hm', nearest, hm, finite_div_finite false m hpos]
    refine ofUnits_congr ?_
    rw [hunits, hunits', Nat.mul_assoc, toGrid_mul hgrid (Nat.mul_pos (Nat.two_pow_pos k)
      unitsInOne_pos)]
  have hsmall : toGrid (a * unitsInOne) (b * 2 ^ k) < unitsAtTop := by
    refine Nat.lt_of_le_of_lt (Nat.le_mul_of_pos_right _ (Nat.two_pow_pos k)) ?_
    rw [← hunits]
    exact m.onGrid.1
  have hresult : (nearest false a (b * 2 ^ k)).key = toGrid (a * unitsInOne) (b * 2 ^ k) := by
    rw [nearest, key_ofUnits, if_neg Bool.false_ne_true, roundedUnits,
      Nat.min_eq_left (Nat.le_of_lt hsmall)]
  refine ⟨hquotient, ?_⟩
  have hpower : (2 : ℚ) ^ k ≠ 0 := pow_ne_zero k two_ne_zero
  unfold toRat
  rw [hresult, nearest, hkey, hunits, div_right_comm]
  push_cast
  rw [mul_div_cancel_right₀ _ hpower]

end Scaling

/-! ## Rounded sums -/

theorem toRat_infinity : (infinity false).toRat = 2 ^ 1024 := by
  have htop : unitsAtTop = 2 ^ 1024 * unitsInOne := by
    have hexponent : 2098 = 1024 + 1074 := by decide
    rw [unitsAtTop_eq_pow, pow_mul_unitsInOne 1024, hexponent]
  have hcast (k : Nat) : ((2 ^ k * unitsInOne : Nat) : ℚ) = 2 ^ k * unitsInOne := by
    push_cast
    rfl
  unfold toRat
  rw [key_infinity, if_neg Bool.false_ne_true, Int.cast_natCast, htop, hcast 1024]
  exact mul_div_cancel_right₀ _ (ne_of_gt unitsInOne_cast_pos)

section Additions

variable {x y : Binary64}

theorem infinity_add (hx : 0 ≤ x) : infinity false + x = infinity false := by
  rcases isFinite_or_infinity_of_nonneg hx with hfin | rfl
  · obtain ⟨s, m, rfl⟩ := isFinite_iff.mp hfin
    rfl
  · rfl

theorem add_infinity (hx : 0 ≤ x) : x + infinity false = infinity false := by
  rcases isFinite_or_infinity_of_nonneg hx with hfin | rfl
  · obtain ⟨s, m, rfl⟩ := isFinite_iff.mp hfin
    rfl
  · rfl

/-- Adding to zero does not round. -/
theorem toRat_zero_add (hx : 0 ≤ x) : (0 + x).toRat = x.toRat := by
  rcases isFinite_or_infinity_of_nonneg hx with hfin | rfl
  · have hround := rounds_add isFinite_zero hfin
    rw [toRat_zero, zero_add] at hround
    exact le_antisymm (toRat_mono (hround.mono (rounds_toRat hfin) (le_rfl)))
      (toRat_mono ((rounds_toRat hfin).mono hround (le_rfl)))
  · exact congrArg toRat (add_infinity (ofNat_nonneg 0))

variable (hx : 0 ≤ x) (hy : 0 ≤ y)
include hx hy

/-- Sums are exact or have their 53 bits; one that overflows is not too large for that. -/
theorem add_relative :
    (x + y).toRat ≤ (x.toRat + y.toRat) * (1 + roundoff) ∧
      ((x + y).isFinite = true → x.toRat + y.toRat ≤ (x + y).toRat * (1 + roundoff)) := by
  have hone : (1 : ℚ) ≤ 1 + roundoff := le_add_of_nonneg_right (le_of_lt roundoff_pos)
  have hx0 := toRat_nonneg hx
  have hy0 := toRat_nonneg hy
  have hsum0 : 0 ≤ x.toRat + y.toRat := Rat.add_nonneg hx0 hy0
  have hinfinite (h : x + y = infinity false) (hle : (infinity false).toRat ≤ x.toRat + y.toRat) :
      (x + y).toRat ≤ (x.toRat + y.toRat) * (1 + roundoff) ∧
        ((x + y).isFinite = true → x.toRat + y.toRat ≤ (x + y).toRat * (1 + roundoff)) := by
    rw [h]
    exact ⟨hle.trans (le_mul_of_one_le_right hsum0 hone), fun hfin => Bool.noConfusion hfin⟩
  rcases isFinite_or_infinity_of_nonneg hx with hxfin | rfl
  · rcases isFinite_or_infinity_of_nonneg hy with hyfin | rfl
    · have hvalue := add_toRat_mul_unitsInOne x y
      have hround := rounds_add hxfin hyfin
      by_cases hsmall : (x.key + y.key).natAbs ≤ 2 ^ 53
      · have hgrid := isGridPoint_mul_pow hsmall 0
        rw [Nat.pow_zero, Nat.mul_one] at hgrid
        have htop : 2 ^ 53 ≤ unitsAtTop := by
          rw [unitsAtTop_eq_pow]
          exact Nat.le_of_lt (two_pow_lt_two_pow 53 2098 (by decide))
        rw [hround.toRat_eq hgrid (Nat.le_trans hsmall htop) hvalue]
        exact ⟨le_mul_of_one_le_right hsum0 hone, fun _ => le_mul_of_one_le_right hsum0 hone⟩
      · have hkeys : 0 ≤ x.key + y.key :=
          Int.add_nonneg (zero_le_iff.mp hx).2 (zero_le_iff.mp hy).2
        refine hround.relative ?_
        rw [hvalue]
        exact_mod_cast (show 2 ^ 52 ≤ x.key + y.key by omega)
    · exact hinfinite (add_infinity hx) (le_add_of_nonneg_left hx0)
  · exact hinfinite (infinity_add hy) (le_add_of_nonneg_right hy0)

end Additions

section Sums

variable {values : List Binary64} (hvalues : ∀ x ∈ values, 0 ≤ x)
include hvalues

theorem foldl_add_infinity : values.foldl (· + ·) (infinity false) = infinity false := by
  induction values with
  | nil => rfl
  | cons x values ih =>
      rw [List.foldl_cons, infinity_add (hvalues x List.mem_cons_self)]
      exact ih fun y hy => hvalues y (List.mem_cons_of_mem x hy)

/-- **Each addition puts one rounding on what was summed before it.** -/
theorem foldl_add_relative {sum : Binary64} (hsum : 0 ≤ sum) :
    (values.foldl (· + ·) sum).toRat ≤
        (sum.toRat + (values.map toRat).sum) * (1 + roundoff) ^ values.length ∧
      ((values.foldl (· + ·) sum).isFinite = true →
        sum.toRat + (values.map toRat).sum ≤
          (values.foldl (· + ·) sum).toRat * (1 + roundoff) ^ values.length) := by
  have hu := roundoff_pos
  induction values generalizing sum with
  | nil =>
      rw [List.foldl_nil, List.map_nil, List.sum_nil, List.length_nil, add_zero, pow_zero, mul_one]
      exact ⟨le_rfl, fun _ => le_rfl⟩
  | cons x values ih =>
      have hx := hvalues x List.mem_cons_self
      have hrest : ∀ y ∈ values, 0 ≤ y := fun y hy => hvalues y (List.mem_cons_of_mem x hy)
      have hrest0 : 0 ≤ (values.map toRat).sum := by
        refine List.sum_nonneg fun v hv => ?_
        obtain ⟨y, hy, rfl⟩ := List.mem_map.mp hv
        exact toRat_nonneg (hrest y hy)
      obtain ⟨hup, hdown⟩ := add_relative hsum hx
      obtain ⟨habove, hbelow⟩ := ih hrest (add_nonneg hsum hx)
      have hmore : 0 ≤ (values.map toRat).sum * roundoff := by positivity
      rw [List.foldl_cons, List.map_cons, List.sum_cons, List.length_cons, ← add_assoc]
      constructor
      · calc (values.foldl (· + ·) (sum + x)).toRat
            ≤ ((sum + x).toRat + (values.map toRat).sum) * (1 + roundoff) ^ values.length := habove
          _ ≤ (sum.toRat + x.toRat + (values.map toRat).sum) * (1 + roundoff) *
                (1 + roundoff) ^ values.length := by
              gcongr
              linarith
          _ = (sum.toRat + x.toRat + (values.map toRat).sum) *
                (1 + roundoff) ^ (values.length + 1) := by ring
      · intro hfin
        -- a sum that has overflowed stays where it is
        have hstep : (sum + x).isFinite = true := by
          refine (isFinite_or_infinity_of_nonneg (add_nonneg hsum hx)).resolve_right fun hinf => ?_
          rw [hinf, foldl_add_infinity hrest] at hfin
          exact Bool.noConfusion hfin
        have hscaled := mul_le_mul_of_nonneg_right (hbelow hfin) (by positivity : 0 ≤ 1 + roundoff)
        have hlast := hdown hstep
        calc sum.toRat + x.toRat + (values.map toRat).sum
            ≤ ((sum + x).toRat + (values.map toRat).sum) * (1 + roundoff) := by linarith
          _ ≤ (values.foldl (· + ·) (sum + x)).toRat * (1 + roundoff) ^ values.length *
                (1 + roundoff) := hscaled
          _ = (values.foldl (· + ·) (sum + x)).toRat * (1 + roundoff) ^ (values.length + 1) := by
            ring

end Sums

/-! ## Means of numbers -/

/-- The sum from left to right, of which a mean is a part. -/
def sum (values : List Binary64) : Binary64 := values.foldl (· + ·) 0

theorem mean_eq_sum_div {values : List Binary64} (hne : values ≠ []) :
    mean values = sum values / ofNat values.length :=
  if_neg (mt List.isEmpty_iff.mp hne)

theorem infinity_div {y : Binary64} (hy : y.isFinite = true) (h0 : 0 < y.key) :
    infinity false / y = infinity false := by
  obtain ⟨m, rfl, -, -⟩ := exists_magnitude hy h0
  rfl

section Means

variable {values : List Binary64} (hne : values ≠ []) (hvalues : ∀ x ∈ values, 0 ≤ x)

include hvalues in
/-- **The computed sum is off by one rounding for each addition**, apart from the first one. -/
theorem sum_relative :
    (sum values).toRat ≤ (values.map toRat).sum * (1 + roundoff) ^ (values.length - 1) ∧
      ((sum values).isFinite = true →
        (values.map toRat).sum ≤ (sum values).toRat * (1 + roundoff) ^ (values.length - 1)) := by
  cases values with
  | nil =>
      show toRat 0 ≤ 0 * _ ∧ (_ → (0 : ℚ) ≤ toRat 0 * _)
      rw [toRat_zero, zero_mul]
      exact ⟨le_rfl, fun _ => le_rfl⟩
  | cons x values =>
      have hx := hvalues x List.mem_cons_self
      have hsum := foldl_add_relative (fun y hy => hvalues y (List.mem_cons_of_mem x hy))
        (add_nonneg (ofNat_nonneg 0) hx)
      have hfirst := toRat_zero_add hx
      rw [List.map_cons, List.sum_cons, List.length_cons, Nat.add_sub_cancel, ← hfirst]
      exact hsum

variable (hlen : values.length ≤ 2 ^ 53)
include hne hlen

theorem ofNat_length_bounds :
    (ofNat values.length).isFinite = true ∧ 0 < (ofNat values.length).key :=
  ⟨isFinite_ofNat (by omega), key_pos_of_one_le (one_le_ofNat (List.length_pos_iff.mpr hne))⟩

theorem rounds_mean (hfin : (sum values).isFinite = true) :
    Rounds ((sum values).toRat / values.length) (mean values) := by
  obtain ⟨hlength, hpos⟩ := ofNat_length_bounds hne hlen
  rw [mean_eq_sum_div hne, ← toRat_ofNat hlen]
  exact rounds_div hfin hlength (zero_lt_iff.mpr ⟨ofNat_ne_nan _, hpos⟩)

variable {c : Binary64} (hc : c.isFinite = true)
include hvalues hc

/-- A mean is above a number only if the sum is above its multiple, or has overflowed. -/
theorem lt_sum_of_lt_mean (h : c < mean values) :
    c.toRat * values.length < (sum values).toRat ∨ sum values = infinity false := by
  rcases isFinite_or_infinity_of_nonneg (foldl_add_nonneg hvalues (ofNat_nonneg 0)) with
    hfin | hinf
  · have hlt := (rounds_mean hne hlen hfin).lt_of_toRat_lt hc h
    have hpos : (0 : ℚ) < values.length := Nat.cast_pos.mpr (List.length_pos_iff.mpr hne)
    exact .inl ((lt_div_iff₀ hpos).mp hlt)
  · exact .inr hinf

/-- If a mean is not above a number, then the sum is hardly above its multiple. -/
theorem sum_le_of_not_lt_mean (h : ¬ c < mean values) :
    (sum values).isFinite = true ∧
      (roundoff ≤ c.toRat →
        (sum values).toRat ≤ c.toRat * values.length * (1 + roundoff)) := by
  have hsum : 0 ≤ sum values := foldl_add_nonneg hvalues (ofNat_nonneg 0)
  have hpos : (0 : ℚ) < values.length := Nat.cast_pos.mpr (List.length_pos_iff.mpr hne)
  rcases isFinite_or_infinity_of_nonneg hsum with hfin | hinf
  · refine ⟨hfin, fun hc1 => ?_⟩
    have hround := rounds_mean hne hlen hfin
    have hle := (not_lt_iff (ne_nan_of_isFinite hc) hround.1).mp h
    have hquotient : (sum values).toRat / values.length ≤ c.toRat * (1 + roundoff) := by
      have hu := roundoff_pos
      have hmean := toRat_mono hle
      by_cases hlow : roundoff ≤ (sum values).toRat / values.length
      · have hmean0 : 0 ≤ mean values :=
          hround.nonneg (le_of_lt (lt_of_lt_of_le roundoff_pos hlow))
        have hbelow := (hround.relative_of_roundoff_le hlow).2 (isFinite_of_le hmean0 hle hc)
        exact hbelow.trans (mul_le_mul_of_nonneg_right hmean (by positivity))
      · exact (le_of_lt (not_le.mp hlow)).trans (hc1.trans (le_mul_of_one_le_right
          (le_of_lt (lt_of_lt_of_le hu hc1)) (le_add_of_nonneg_right (le_of_lt hu))))
    calc (sum values).toRat ≤ c.toRat * (1 + roundoff) * values.length :=
          (div_le_iff₀ hpos).mp hquotient
      _ = c.toRat * values.length * (1 + roundoff) := mul_right_comm _ _ _
  · -- an infinite sum has an infinite mean
    obtain ⟨hlength, hlength0⟩ := ofNat_length_bounds hne hlen
    rw [mean_eq_sum_div hne, hinf, infinity_div hlength hlength0] at h
    exact absurd (lt_infinity hc) h

end Means

/-! ## Means of numbers up to a bound -/

/-- The multiples of a number that a sum of so many numbers up to it reaches are numbers. -/
def HasMultiples (c : Binary64) (n : Nat) : Prop :=
  ∀ j ≤ n, ∃ y : Binary64, y.isFinite = true ∧ y.toRat = j * c.toRat

/-- Counts have the multiples that are counts of 53 bits. -/
theorem hasMultiples_ofNat {k n : Nat} (h : n * k ≤ 2 ^ 53) : HasMultiples (ofNat k) n := by
  intro j hj
  rcases Nat.eq_zero_or_pos j with rfl | hpos
  · refine ⟨0, isFinite_zero, ?_⟩
    rw [toRat_zero, Nat.cast_zero, zero_mul]
  · have hproduct : j * k ≤ 2 ^ 53 := Nat.le_trans (Nat.mul_le_mul_right k hj) h
    have hk : k ≤ 2 ^ 53 := Nat.le_trans (Nat.le_mul_of_pos_left k hpos) hproduct
    refine ⟨ofNat (j * k), isFinite_ofNat (by omega), ?_⟩
    rw [toRat_ofNat hproduct, toRat_ofNat hk, Nat.cast_mul]

section Bounded

variable {c : Binary64} {n : Nat} (hc : HasMultiples c n)
include hc

/-- **Every partial sum is at most the multiple**, which rounding cannot pass. -/
theorem foldl_add_le_mul {values : List Binary64} (hvalues : ∀ x ∈ values, 0 ≤ x)
    (hle : ∀ x ∈ values, x ≤ c) (hfin : c.isFinite = true) {sum : Binary64} {i : Nat}
    (hsum : 0 ≤ sum) (hsumfin : sum.isFinite = true) (hbound : sum.toRat ≤ i * c.toRat)
    (hn : i + values.length ≤ n) :
    (values.foldl (· + ·) sum).isFinite = true ∧
      (values.foldl (· + ·) sum).toRat ≤ (i + values.length : Nat) * c.toRat := by
  induction values generalizing sum i with
  | nil => exact ⟨hsumfin, hbound⟩
  | cons x values ih =>
      have hx := hvalues x List.mem_cons_self
      have hxc := hle x List.mem_cons_self
      rw [List.length_cons] at hn ⊢
      obtain ⟨y, hyfin, hy⟩ := hc (i + 1) (by omega)
      have hexact : sum.toRat + x.toRat ≤ y.toRat := by
        have hxle := toRat_mono hxc
        rw [hy]
        push_cast
        linarith
      -- the next multiple is a number, so rounding does not carry the sum past it
      have hstep := (rounds_add hsumfin (isFinite_of_le hx hxc hfin)).mono (rounds_toRat hyfin)
        hexact
      have hstep0 := add_nonneg hsum hx
      have hvalue := toRat_mono hstep
      rw [hy] at hvalue
      rw [List.foldl_cons, Nat.add_comm values.length 1, ← Nat.add_assoc]
      exact ih (fun z hz => hvalues z (List.mem_cons_of_mem x hz))
        (fun z hz => hle z (List.mem_cons_of_mem x hz)) hstep0 (isFinite_of_le hstep0 hstep hyfin)
        hvalue (by omega)

/-- **So a mean is at most what its numbers are.** -/
theorem mean_le {values : List Binary64} (hne : values ≠ []) (hvalues : ∀ x ∈ values, 0 ≤ x)
    (hle : ∀ x ∈ values, x ≤ c) (hfin : c.isFinite = true) (hlen : values.length ≤ 2 ^ 53)
    (hn : values.length ≤ n) : mean values ≤ c := by
  have hzero : toRat 0 ≤ (0 : Nat) * c.toRat := by
    rw [toRat_zero, Nat.cast_zero, zero_mul]
  obtain ⟨hsumfin, hbound⟩ := foldl_add_le_mul hc hvalues hle hfin (ofNat_nonneg 0) isFinite_zero
    hzero (by omega)
  have hpos : (0 : ℚ) < values.length := Nat.cast_pos.mpr (List.length_pos_iff.mpr hne)
  rw [Nat.zero_add] at hbound
  exact (rounds_mean hne hlen hsumfin).mono (rounds_toRat hfin)
    ((div_le_iff₀ hpos).mpr (hbound.trans_eq (mul_comm _ _)))

end Bounded

end Binary64

end BenchGate
