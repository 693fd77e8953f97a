import BenchGate.Proofs.Binary64.Order

/-!
# Counts, shares and averages

What the reduction of results to metrics computes with: counts turned into numbers, shares confined
to `[0, 1]`, and means. The facts here are about where such numbers lie.

* Counts keep their order, and every count of real inputs is finite.
* Numbers that are not negative add up to one that is not negative; it may be infinite, but it is
  never `nan`. So is their mean.
* A sum of 64-bit counts never overflows, however many there are. Once it has reached `2 ^ 118`, a
  count is too small to change it.
-/

namespace BenchGate

-- the powers of two behind these names are too large to be computed while matching terms
attribute [local irreducible] unitsInOne unitsAtTop

namespace Binary64

/-! ## Counts -/

theorem ofNat_ne_nan (n : Nat) : ofNat n ≠ nan := ofUnits_ne_nan _ _ _

theorem key_ofNat (n : Nat) : (ofNat n).key = roundedUnits (n * unitsInOne) 1 := by
  unfold ofNat nearest
  rw [key_ofUnits]
  simp

theorem two_pow_lt_two_pow (a b : Nat) (h : a < b) : 2 ^ a < 2 ^ b :=
  Nat.pow_lt_pow_right (by decide) h

-- The exponents are variables while the powers are compared, so that no power is computed.
theorem unitsInOne_eq_pow : unitsInOne = 2 ^ 1074 := by
  unfold unitsInOne
  generalize 1074 = k
  rfl

theorem unitsAtTop_eq_pow : unitsAtTop = 2 ^ 2098 := by
  unfold unitsAtTop
  generalize 2098 = k
  rfl

theorem pow_mul_unitsInOne (k : Nat) : 2 ^ k * unitsInOne = 2 ^ (k + 1074) := by
  rw [unitsInOne_eq_pow, pow_add]

theorem isGridPoint_mul_unitsInOne {n : Nat} (h : n ≤ 2 ^ 53) : IsGridPoint (n * unitsInOne) := by
  rw [unitsInOne_eq_pow]
  exact isGridPoint_mul_pow h 1074

theorem pow_mul_unitsInOne_lt_top {k : Nat} (h : k < 1024) :
    2 ^ k * unitsInOne < unitsAtTop := by
  rw [pow_mul_unitsInOne, unitsAtTop_eq_pow]
  exact two_pow_lt_two_pow (k + 1074) 2098 (by omega)

theorem mul_unitsInOne_lt_top {n k : Nat} (hn : n ≤ 2 ^ k) (hk : k < 1024) :
    n * unitsInOne < unitsAtTop :=
  Nat.lt_of_le_of_lt (Nat.mul_le_mul_right _ hn) (pow_mul_unitsInOne_lt_top hk)

/-- Counts of up to 53 bits are exact. -/
theorem key_ofNat_of_le {n : Nat} (h : n ≤ 2 ^ 53) : (ofNat n).key = (n * unitsInOne : Nat) := by
  have := roundedUnits_mul (isGridPoint_mul_unitsInOne h)
    (Nat.le_of_lt (mul_unitsInOne_lt_top h (by decide))) (d := 1) (by decide)
  rw [Nat.mul_one] at this
  rw [key_ofNat, this]

/-- Counts that are powers of two are exact. -/
theorem key_ofNat_pow {k : Nat} (h : k < 1024) :
    (ofNat (2 ^ k)).key = (2 ^ k * unitsInOne : Nat) := by
  have hg : IsGridPoint (2 ^ k * unitsInOne) := by
    rw [pow_mul_unitsInOne]
    exact isGridPoint_pow _
  have := roundedUnits_mul hg (Nat.le_of_lt (pow_mul_unitsInOne_lt_top h)) (d := 1) (by decide)
  rw [Nat.mul_one] at this
  rw [key_ofNat, this]

theorem ofNat_le_ofNat {m n : Nat} (h : m ≤ n) : ofNat m ≤ ofNat n := by
  refine ⟨ofNat_ne_nan m, ofNat_ne_nan n, ?_⟩
  rw [key_ofNat, key_ofNat]
  exact Int.ofNat_le.mpr (roundedUnits_mono (by decide) (by decide)
    (Nat.mul_le_mul_right 1 (Nat.mul_le_mul_right unitsInOne h)))

theorem zero_eq : (0 : Binary64) = zero false := by decide +kernel

theorem key_zero_literal : (0 : Binary64).key = 0 := by
  have := key_ofNat_of_le (n := 0) (by decide)
  rwa [Nat.zero_mul] at this

theorem key_one : (1 : Binary64).key = unitsInOne := by
  have := key_ofNat_of_le (n := 1) (by decide)
  rwa [Nat.one_mul] at this

theorem zero_le_iff {x : Binary64} : 0 ≤ x ↔ x ≠ nan ∧ 0 ≤ x.key := by
  rw [le_iff, key_zero_literal]
  exact ⟨fun h => h.2, fun h => ⟨ofNat_ne_nan 0, h⟩⟩

theorem zero_lt_iff {x : Binary64} : 0 < x ↔ x ≠ nan ∧ 0 < x.key := by
  rw [lt_iff, key_zero_literal]
  exact ⟨fun h => h.2, fun h => ⟨ofNat_ne_nan 0, h⟩⟩

theorem ofNat_nonneg (n : Nat) : 0 ≤ ofNat n := ofNat_le_ofNat (Nat.zero_le n)

theorem one_le_ofNat {n : Nat} (h : 0 < n) : 1 ≤ ofNat n := ofNat_le_ofNat h

theorem key_pos_of_one_le {x : Binary64} (h : 1 ≤ x) : 0 < x.key := by
  have := h.2.2
  rw [key_one] at this
  have := unitsInOne_pos
  omega

theorem isFinite_of_le {x y : Binary64} (hx : 0 ≤ x) (h : x ≤ y) (hy : y.isFinite = true) :
    x.isFinite = true := by
  have h0 := (zero_le_iff.mp hx).2
  have h1 := abs_key_lt_top hy
  have h2 := h.2.2
  exact isFinite_of_abs_key_lt h.1 (by omega)

theorem isFinite_ofNat_pow {k : Nat} (h : k < 1024) : (ofNat (2 ^ k)).isFinite = true := by
  refine isFinite_of_abs_key_lt (ofNat_ne_nan _) ?_
  rw [key_ofNat_pow h, Int.natAbs_natCast]
  exact pow_mul_unitsInOne_lt_top h

/-- Every count below `2 ^ 64` is finite. -/
theorem isFinite_ofNat {n : Nat} (h : n ≤ 2 ^ 64) : (ofNat n).isFinite = true :=
  isFinite_of_le (ofNat_nonneg n) (ofNat_le_ofNat h) (isFinite_ofNat_pow (by decide))

/-! ## Sums and quotients that are not negative -/

theorem infinity_nonneg : 0 ≤ infinity false :=
  zero_le_iff.mpr ⟨Binary64.noConfusion, Int.natCast_nonneg _⟩

theorem lt_infinity {x : Binary64} (h : x.isFinite = true) : x < infinity false := by
  have htop := abs_key_lt_top h
  refine ⟨ne_nan_of_isFinite h, Binary64.noConfusion, ?_⟩
  show x.key < unitsAtTop
  omega

/-- Among the infinities, the positive one is at least zero. -/
theorem eq_false_of_infinity_nonneg {s : Bool} (h : 0 ≤ (infinity s).key) : s = false := by
  have htop := unitsAtTop_pos
  cases s with
  | false => rfl
  | true =>
      rw [key_infinity, if_pos rfl] at h
      omega

/-- A number that is not negative is finite or the positive infinity. -/
theorem isFinite_or_infinity_of_nonneg {x : Binary64} (h : 0 ≤ x) :
    x.isFinite = true ∨ x = infinity false := by
  cases x with
  | nan => exact absurd rfl h.2.1
  | infinity s => exact .inr (by rw [eq_false_of_infinity_nonneg (zero_le_iff.mp h).2])
  | finite s m => exact .inl rfl

theorem add_nonneg {x y : Binary64} (hx : 0 ≤ x) (hy : 0 ≤ y) : 0 ≤ x + y := by
  rw [zero_le_iff] at hx hy
  cases x with
  | nan => exact absurd rfl hx.1
  | infinity s =>
      obtain rfl := eq_false_of_infinity_nonneg hx.2
      cases y with
      | nan => exact absurd rfl hy.1
      | infinity t =>
          obtain rfl := eq_false_of_infinity_nonneg hy.2
          exact infinity_nonneg
      | finite t m => exact infinity_nonneg
  | finite s m =>
      cases y with
      | nan => exact absurd rfl hy.1
      | infinity t =>
          obtain rfl := eq_false_of_infinity_nonneg hy.2
          exact infinity_nonneg
      | finite t m' =>
          have h := add_finite (x := finite s m) (y := finite t m') rfl rfl
          refine zero_le_iff.mpr ⟨h.1, ?_⟩
          rw [h.2]
          exact roundedKey_nonneg (Int.add_nonneg hx.2 hy.2)

theorem isFinite_zero : (0 : Binary64).isFinite = true := isFinite_ofNat (by decide)

theorem isFinite_one : (1 : Binary64).isFinite = true := isFinite_ofNat (by decide)

theorem zero_div_key {y : Binary64} (hy : y.isFinite = true) (h0 : 0 < y.key) :
    ((0 : Binary64) / y).key = 0 := by
  rw [(div_finite isFinite_zero hy h0).2, key_zero_literal, Int.zero_mul]
  simp [roundedKey, roundedUnits_zero]

theorem div_nonneg {x y : Binary64} (hx : 0 ≤ x) (hy : y.isFinite = true) (h0 : 0 < y.key) :
    0 ≤ x / y := by
  have h := div_le_div_right hx hy h0
  refine zero_le_iff.mpr ⟨h.2.1, ?_⟩
  have := h.2.2
  rwa [zero_div_key hy h0] at this

theorem zero_mul_key {y : Binary64} (hy : y.isFinite = true) : ((0 : Binary64) * y).key = 0 := by
  rw [(mul_finite isFinite_zero hy).2, key_zero_literal, Int.zero_mul]
  simp [roundedKey, roundedUnits_zero]

theorem mul_nonneg {x y : Binary64} (hx : 0 ≤ x) (hy : y.isFinite = true) (h0 : 0 < y.key) :
    0 ≤ x * y := by
  have h := mul_le_mul_right hx hy h0
  refine zero_le_iff.mpr ⟨h.2.1, ?_⟩
  have := h.2.2
  rwa [zero_mul_key hy] at this

/-- Dividing by a number from one on does not lead up. -/
theorem div_le_self {x y : Binary64} (hx : x.isFinite = true) (h : 0 ≤ x)
    (hy : y.isFinite = true) (h1 : 1 ≤ y) : x / y ≤ x := by
  have h0 := key_pos_of_one_le h1
  have hdiv := div_finite hx hy h0
  refine ⟨hdiv.1, ne_nan_of_isFinite hx, ?_⟩
  rw [hdiv.2]
  have hone := h1.2.2
  rw [key_one] at hone
  refine roundedKey_le (isGridPoint_key hx) (Nat.le_of_lt (abs_key_lt_top hx)) (by omega) ?_
  rw [Int.natAbs_of_nonneg (Int.le_of_lt h0)]
  exact Int.mul_le_mul_of_nonneg_left hone (zero_le_iff.mp h).2

theorem isFinite_div {x y : Binary64} (hx : x.isFinite = true) (h : 0 ≤ x)
    (hy : y.isFinite = true) (h1 : 1 ≤ y) : (x / y).isFinite = true :=
  isFinite_of_le (div_nonneg h hy (key_pos_of_one_le h1)) (div_le_self hx h hy h1) hx

/-- A number that is not below its divisor gives at least one. -/
theorem one_le_div {x y : Binary64} (hx : x.isFinite = true) (hy : y.isFinite = true)
    (h0 : 0 < y.key) (h : y ≤ x) : 1 ≤ x / y := by
  have hdiv := div_finite hx hy h0
  refine ⟨ofNat_ne_nan 1, hdiv.1, ?_⟩
  rw [key_one, hdiv.2]
  have hg := isGridPoint_mul_unitsInOne (n := 1) (by decide)
  have ht := mul_unitsInOne_lt_top (n := 1) (k := 0) (by decide) (by decide)
  rw [Nat.one_mul] at hg ht
  refine le_roundedKey ?_ ?_ (by omega) ?_
  · rwa [Int.natAbs_natCast]
  · rw [Int.natAbs_natCast]
    exact Nat.le_of_lt ht
  · rw [Int.natAbs_of_nonneg (Int.le_of_lt h0), Int.mul_comm]
    exact Int.mul_le_mul_of_nonneg_right h.2.2 (Int.natCast_nonneg _)

theorem unitsAtTop_le : unitsAtTop ≤ unitsInOne * unitsInOne := by
  have hsquare : ∀ k, 2 ^ (k + k) = 2 ^ k * 2 ^ k := fun k => pow_add 2 k k
  have hlt := two_pow_lt_two_pow 2098 (1074 + 1074) (by decide)
  rw [unitsAtTop_eq_pow, unitsInOne_eq_pow]
  exact Nat.le_of_lt (Nat.lt_of_lt_of_eq hlt (hsquare 1074))

/-- A number from one on is too large for any quotient to be zero. -/
theorem div_pos {x y : Binary64} (hx : x.isFinite = true) (h1 : 1 ≤ x) (hy : y.isFinite = true)
    (h0 : 0 < y.key) : 0 < x / y := by
  have hdiv := div_finite hx hy h0
  have hone := h1.2.2
  rw [key_one] at hone
  have htop : (unitsAtTop : Int) ≤ unitsInOne * unitsInOne := by
    rw [← Int.natCast_mul]
    exact Int.ofNat_le.mpr unitsAtTop_le
  have hunits : (unitsInOne : Int) * unitsInOne ≤ x.key * unitsInOne :=
    Int.mul_le_mul_of_nonneg_right hone (Int.natCast_nonneg _)
  have hbelow := abs_key_lt_top hy
  have hgrid : IsGridPoint (Int.natAbs 1) := isGridPoint_pow 0
  have hunit : 1 ≤ roundedKey (x.key * unitsInOne) y.key.natAbs :=
    le_roundedKey hgrid unitsAtTop_pos (by omega) (by omega)
  refine zero_lt_iff.mpr ⟨hdiv.1, ?_⟩
  rw [hdiv.2]
  exact hunit

/-- A positive number divided by itself is one, without a rounding error. -/
theorem div_self {x : Binary64} (hx : x.isFinite = true) (h0 : 0 < x.key) : x / x = 1 := by
  obtain ⟨m, rfl, hpos, -⟩ := exists_magnitude hx h0
  rw [finite_div_finite false m hpos]
  -- the quotient of one by one rounds the same exact value
  change _ = ofUnits false (1 * unitsInOne) 1
  refine ofUnits_congr (toGrid_congr hpos (by decide) ?_)
  rw [Nat.mul_one, Nat.one_mul, Nat.mul_comm]

/-! ## Shares -/

/-- Confining a number leaves a share, whatever the number is. -/
theorem clampToShare_bounds (x : Binary64) : 0 ≤ x.clampToShare ∧ x.clampToShare ≤ 1 := by
  have h01 : (0 : Binary64) ≤ 1 := ofNat_nonneg 1
  unfold clampToShare
  split
  · exact ⟨le_refl (ofNat_ne_nan 0), h01⟩
  · rename_i hx
    split
    · exact ⟨le_refl (ofNat_ne_nan 0), h01⟩
    · rename_i hneg
      split
      · exact ⟨h01, le_refl (ofNat_ne_nan 1)⟩
      · rename_i hone
        exact ⟨(not_lt_iff hx (ofNat_ne_nan 0)).mp hneg, (not_lt_iff (ofNat_ne_nan 1) hx).mp hone⟩

theorem isFinite_clampToShare (x : Binary64) : x.clampToShare.isFinite = true :=
  isFinite_of_le (clampToShare_bounds x).1 (clampToShare_bounds x).2 isFinite_one

theorem clampToShare_of_one_le {x : Binary64} (h : 1 ≤ x) : x.clampToShare = 1 := by
  have hpos := key_pos_of_one_le h
  have hneg : ¬ x < 0 := fun hlt => by
    have := hlt.2.2
    rw [key_zero_literal] at this
    omega
  unfold clampToShare
  rw [if_neg h.2.1, if_neg hneg]
  by_cases hone : 1 < x
  · rw [if_pos hone]
  · rw [if_neg hone]
    have hle := (not_lt_iff (ofNat_ne_nan 1) h.2.1).mp hone
    exact eq_of_key_eq h.2.1 (ofNat_ne_nan 1) (Int.le_antisymm hle.2.2 h.2.2) (by omega)

/-- A whole part of a whole is one. -/
theorem ofNat_div_self {n : Nat} (h0 : 0 < n) (h : n ≤ 2 ^ 64) : ofNat n / ofNat n = 1 :=
  div_self (isFinite_ofNat h) (key_pos_of_one_le (one_le_ofNat h0))

/-! ## Means -/

theorem foldl_add_nonneg {values : List Binary64} (h : ∀ x ∈ values, 0 ≤ x) {sum : Binary64}
    (hsum : 0 ≤ sum) : 0 ≤ values.foldl (· + ·) sum := by
  induction values generalizing sum with
  | nil => exact hsum
  | cons x values ih =>
      exact ih (fun y hy => h y (List.mem_cons_of_mem _ hy))
        (add_nonneg hsum (h x List.mem_cons_self))

/-- **A mean of numbers that are not negative is one**, and in particular never `nan`. -/
theorem mean_nonneg {values : List Binary64} (h : ∀ x ∈ values, 0 ≤ x)
    (hlen : values.length ≤ 2 ^ 64) : 0 ≤ mean values := by
  unfold mean
  split
  · exact ofNat_nonneg 0
  · rename_i hne
    have hpos : 0 < values.length := by
      cases values with
      | nil => exact absurd rfl hne
      | cons x values => exact Nat.succ_pos _
    exact div_nonneg (foldl_add_nonneg h (ofNat_nonneg 0)) (isFinite_ofNat hlen)
      (key_pos_of_one_le (one_le_ofNat hpos))

/-- Above a power of two, less than half a spacing is lost. -/
theorem toGrid_pow_add {k j : Nat} (h : j + 53 < k) : toGrid (2 ^ k + 2 ^ j) 1 = 2 ^ k := by
  have hsplit : 2 ^ k = 2 ^ 52 * 2 ^ (k - 52) := by
    rw [← Nat.pow_add, Nat.add_sub_cancel' (by omega)]
  have hr : 2 * 2 ^ j < 2 ^ (k - 52) := by
    rw [← Nat.pow_succ']
    exact Nat.pow_lt_pow_right (by decide) (by omega)
  have hlt : 2 ^ j < 2 ^ (k - 52) := by omega
  -- the first bit stays where it is, and so does the spacing
  have hlog : Nat.log2 (2 ^ k + 2 ^ j) = k := by
    have hpow : 2 ^ (k - 52) ≤ 2 ^ k := Nat.pow_le_pow_right (by decide) (Nat.sub_le _ _)
    rw [Nat.log2_eq_iff (by have := Nat.two_pow_pos k; omega), Nat.pow_succ]
    omega
  have hnear : nearestWhole (2 ^ k + 2 ^ j) (2 ^ (k - 52)) = 2 ^ 52 := by
    unfold nearestWhole
    dsimp only
    rw [hsplit, Nat.mul_comm (2 ^ 52), Nat.mul_add_div (Nat.two_pow_pos _), Nat.mul_add_mod,
      Nat.div_eq_of_lt hlt, Nat.mod_eq_of_lt hlt, if_pos hr, Nat.add_zero]
  unfold toGrid spacing
  rw [Nat.div_one, hlog, Nat.one_mul, hnear, ← hsplit]

theorem toGrid_pow_add_units {k j : Nat} (h : j + 53 < k) :
    toGrid (2 ^ k * unitsInOne + 2 ^ j * unitsInOne) 1 = 2 ^ k * unitsInOne := by
  rw [pow_mul_unitsInOne, pow_mul_unitsInOne]
  exact toGrid_pow_add (by omega)

/-- The bound that a sum of 64-bit counts never passes. -/
def countSumBound : Binary64 := ofNat (2 ^ 118)

theorem isFinite_countSumBound : countSumBound.isFinite = true := isFinite_ofNat_pow (by decide)

/-- At the bound, a 64-bit count is less than half a spacing. -/
theorem add_ofNat_le_bound {sum : Binary64} (hsum : 0 ≤ sum) (hle : sum ≤ countSumBound) {n : Nat}
    (hn : n ≤ 2 ^ 64) : sum + ofNat n ≤ countSumBound := by
  have hfin := isFinite_of_le hsum hle isFinite_countSumBound
  have hadd := add_finite hfin (isFinite_ofNat hn)
  refine ⟨hadd.1, ofNat_ne_nan _, ?_⟩
  have hcount := (ofNat_le_ofNat hn).2.2
  have hbound := hle.2.2
  unfold countSumBound at hbound ⊢
  rw [key_ofNat_pow (by decide)] at hcount hbound ⊢
  rw [hadd.2]
  -- the worst case is a sum at the bound and the largest count
  refine Int.le_trans (roundedKey_mono (by decide) (Int.add_le_add hbound hcount)) ?_
  rw [← Int.natCast_add, roundedKey_natCast]
  refine Int.ofNat_le.mpr (Nat.le_trans (Nat.min_le_left _ _) (Nat.le_of_eq ?_))
  exact toGrid_pow_add_units (by decide)

/-- **A sum of 64-bit counts never overflows.** -/
theorem foldl_ofNat_le_bound {counts : List Nat} (h : ∀ n ∈ counts, n ≤ 2 ^ 64) {sum : Binary64}
    (hsum : 0 ≤ sum) (hle : sum ≤ countSumBound) :
    (counts.map ofNat).foldl (· + ·) sum ≤ countSumBound := by
  induction counts generalizing sum with
  | nil => exact hle
  | cons n counts ih =>
      exact ih (fun m hm => h m (List.mem_cons_of_mem _ hm)) (add_nonneg hsum (ofNat_nonneg n))
        (add_ofNat_le_bound hsum hle (h n List.mem_cons_self))

/-- The mean of 64-bit counts is finite. -/
theorem isFinite_mean_ofNat (counts : List Nat) (h : ∀ n ∈ counts, n ≤ 2 ^ 64)
    (hlen : counts.length ≤ 2 ^ 64) : (mean (counts.map ofNat)).isFinite = true := by
  unfold mean
  split
  · exact isFinite_ofNat (by decide)
  · rename_i hne
    have hpos : 0 < counts.length := by
      cases counts with
      | nil => exact absurd rfl hne
      | cons x counts => exact Nat.succ_pos _
    have hsum : 0 ≤ (counts.map ofNat).foldl (· + ·) 0 := foldl_add_nonneg (fun x hx => by
      obtain ⟨n, -, rfl⟩ := List.mem_map.mp hx
      exact ofNat_nonneg n) (ofNat_nonneg 0)
    have hle := foldl_ofNat_le_bound h (ofNat_nonneg 0) (ofNat_le_ofNat (Nat.zero_le _))
    rw [List.length_map]
    exact isFinite_div (isFinite_of_le hsum hle isFinite_countSumBound) hsum (isFinite_ofNat hlen)
      (one_le_ofNat hpos)

end Binary64

end BenchGate
