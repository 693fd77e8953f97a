import BenchGate.Proofs.Binary64.Means

/-!
# How far several roundings go

A computation of a few steps rounds a few times. Each rounding is off by one part in `2 ^ 53`, or,
among the smallest numbers, by half a unit. `Within k s` says that two values are apart by no more
than `k` such factors and a sum `s` of such halves; it can be used from either side, and it adds up
along a chain of roundings, through products, and through quotients by something of one or more.

Without a rounding on the way there is nothing to add up. Whole numbers with no more than 53 bits
are their own values, whatever zeros follow them, and so are the powers of ten up to `10 ^ 22`. One
operation on such numbers rounds the exact result, and only one number is that.
-/

namespace BenchGate

attribute [local irreducible] unitsInOne unitsAtTop Binary64.gapBelowOne

/-! ## Values that are a few roundings apart -/

/-- Apart by no more than `k` relative roundings, after moving by `s`. -/
structure Within (k : Nat) (s a b : ℚ) : Prop where
  le : a ≤ (b + s) * (1 + roundoff) ^ k
  ge : b ≤ (a + s) * (1 + roundoff) ^ k

theorem one_le_one_add_roundoff : 1 ≤ 1 + roundoff := le_add_of_nonneg_right (le_of_lt roundoff_pos)

namespace Within

variable {k l : Nat} {s r a b c p q : ℚ}

theorem refl (ha : 0 ≤ a) (hs : 0 ≤ s) : Within k s a a := by
  have hsum : 0 ≤ a + s := add_nonneg ha hs
  have hle : a ≤ (a + s) * (1 + roundoff) ^ k :=
    (le_add_of_nonneg_right hs).trans
      (le_mul_of_one_le_right hsum (one_le_pow₀ one_le_one_add_roundoff))
  exact ⟨hle, hle⟩

theorem symm (h : Within k s a b) : Within k s b a := ⟨h.ge, h.le⟩

theorem mono (h : Within k s a b) (ha : 0 ≤ a) (hb : 0 ≤ b) (hs : 0 ≤ s) (hk : k ≤ l)
    (hsr : s ≤ r) : Within l r a b := by
  have hpow : (1 + roundoff) ^ k ≤ (1 + roundoff) ^ l :=
    pow_le_pow_right₀ one_le_one_add_roundoff hk
  have hu := roundoff_pos
  constructor
  · calc a ≤ (b + s) * (1 + roundoff) ^ k := h.le
      _ ≤ (b + r) * (1 + roundoff) ^ k := by gcongr
      _ ≤ (b + r) * (1 + roundoff) ^ l := mul_le_mul_of_nonneg_left hpow (by linarith)
  · calc b ≤ (a + s) * (1 + roundoff) ^ k := h.ge
      _ ≤ (a + r) * (1 + roundoff) ^ k := by gcongr
      _ ≤ (a + r) * (1 + roundoff) ^ l := mul_le_mul_of_nonneg_left hpow (by linarith)

theorem trans (hab : Within k s a b) (hbc : Within l r b c) (hs : 0 ≤ s) (hr : 0 ≤ r) :
    Within (k + l) (s + r) a c := by
  have hu := roundoff_pos
  have hone := one_le_one_add_roundoff
  constructor
  · calc a ≤ (b + s) * (1 + roundoff) ^ k := hab.le
      _ ≤ ((c + r) * (1 + roundoff) ^ l + s * (1 + roundoff) ^ l) * (1 + roundoff) ^ k := by
          gcongr
          · exact hbc.le
          · exact le_mul_of_one_le_right hs (one_le_pow₀ hone)
      _ = (c + (s + r)) * (1 + roundoff) ^ (k + l) := by ring
  · calc c ≤ (b + r) * (1 + roundoff) ^ l := hbc.ge
      _ ≤ ((a + s) * (1 + roundoff) ^ k + r * (1 + roundoff) ^ k) * (1 + roundoff) ^ l := by
          gcongr
          · exact hab.ge
          · exact le_mul_of_one_le_right hr (one_le_pow₀ hone)
      _ = (a + (s + r)) * (1 + roundoff) ^ (k + l) := by ring

theorem mul (h : Within k 0 a b) (h' : Within l 0 p q) (ha : 0 ≤ a) (hb : 0 ≤ b) (hp : 0 ≤ p)
    (hq : 0 ≤ q) : Within (k + l) 0 (a * p) (b * q) := by
  obtain ⟨hle, hge⟩ := h
  obtain ⟨hle', hge'⟩ := h'
  have hu := roundoff_pos
  rw [add_zero] at hle hge hle' hge'
  constructor
  · calc a * p ≤ (b * (1 + roundoff) ^ k) * (q * (1 + roundoff) ^ l) := by gcongr
      _ = (b * q + 0) * (1 + roundoff) ^ (k + l) := by ring
  · calc b * q ≤ (a * (1 + roundoff) ^ k) * (p * (1 + roundoff) ^ l) := by gcongr
      _ = (a * p + 0) * (1 + roundoff) ^ (k + l) := by ring

/-- Dividing by a value of one or more makes the sum no larger. -/
theorem div (h : Within k s a b) (h' : Within l 0 p q) (hs : 0 ≤ s) (ha : 0 ≤ a) (hb : 0 ≤ b)
    (hp : 1 ≤ p) (hq : 1 ≤ q) : Within (k + l) s (a / p) (b / q) := by
  have hu := roundoff_pos
  have hside {a b p q : ℚ} (hle : a ≤ (b + s) * (1 + roundoff) ^ k)
      (hge : q ≤ (p + 0) * (1 + roundoff) ^ l) (hb : 0 ≤ b) (hp : 1 ≤ p) (hq : 1 ≤ q) :
      a / p ≤ (b / q + s) * (1 + roundoff) ^ (k + l) := by
    have hp0 : 0 < p := by linarith
    have hq0 : 0 < q := by linarith
    rw [div_le_iff₀ hp0]
    rw [add_zero] at hge
    calc a ≤ (b + s) * (1 + roundoff) ^ k := hle
      _ ≤ (b / q + s) * q * (1 + roundoff) ^ k := by
          gcongr
          rw [add_mul, div_mul_cancel₀ _ (ne_of_gt hq0)]
          have := le_mul_of_one_le_right hs hq
          linarith
      _ ≤ (b / q + s) * (p * (1 + roundoff) ^ l) * (1 + roundoff) ^ k := by gcongr
      _ = (b / q + s) * (1 + roundoff) ^ (k + l) * p := by ring
  exact ⟨hside h.le h'.ge hb hp hq, hside h.ge h'.le ha hq hp⟩

end Within

namespace Binary64

/-- Half of the smallest positive number. -/
def halfUnit : ℚ := 1 / 2 / unitsInOne

theorem halfUnit_pos : 0 < halfUnit := by
  have := unitsInOne_cast_pos
  unfold halfUnit
  positivity

namespace Rounds

variable {v : ℚ} {x y : Binary64}

theorem within_of_bits (hx : Rounds v x) (h : 2 ^ 52 ≤ v * unitsInOne) (hfin : x.isFinite = true) :
    Within 1 0 x.toRat v := by
  obtain ⟨habove, hbelow⟩ := hx.relative h
  constructor
  · rw [add_zero, pow_one]
    exact habove
  · rw [add_zero, pow_one]
    exact hbelow hfin

theorem within_of_one_le (hx : Rounds v x) (h1 : 1 ≤ v) (hfin : x.isFinite = true) :
    Within 1 0 x.toRat v := by
  have hbits : 2 ^ 52 ≤ unitsInOne := by
    have hgap := gapBelowOne_pos
    rw [unitsInOne_eq]
    omega
  have hbits' : (2 : ℚ) ^ 52 ≤ unitsInOne := by exact_mod_cast hbits
  exact hx.within_of_bits (hbits'.trans (le_mul_of_one_le_left (Nat.cast_nonneg _) h1)) hfin

/-- **One rounding** of any value that is not negative. -/
theorem within (hx : Rounds v x) (h0 : 0 ≤ v) (hfin : x.isFinite = true) :
    Within 1 halfUnit x.toRat v := by
  have hhalf := halfUnit_pos
  have hx0 := toRat_nonneg (hx.nonneg h0)
  by_cases hbits : 2 ^ 52 ≤ v * unitsInOne
  · exact (hx.within_of_bits hbits hfin).mono hx0 h0 le_rfl (Nat.le_refl 1) (le_of_lt hhalf)
  · -- among the smallest numbers the error is absolute
    obtain ⟨k, d, hd, hexact, -, huncapped⟩ := hx.exists_toGrid h0
    have hrounded := huncapped hfin
    have hscale : (0 : ℚ) < unitsInOne * d := mul_pos unitsInOne_cast_pos (Nat.cast_pos.mpr hd)
    have hk : k ≤ 2 ^ (53 + 0) * d := by
      have hle := mul_le_mul_of_nonneg_right (le_of_lt (not_le.mp hbits))
        (Nat.cast_nonneg (α := ℚ) d)
      rw [mul_assoc, hexact] at hle
      have hle' : k ≤ 2 ^ 52 * d := by exact_mod_cast hle
      omega
    obtain ⟨habove, hbelow⟩ := toGrid_absolute hd hk
    have habove' : (2 : ℚ) * (toGrid k d * d) ≤ 2 * k + 2 ^ 0 * d := by exact_mod_cast habove
    have hbelow' : (2 : ℚ) * k ≤ 2 * (toGrid k d * d) + 2 ^ 0 * d := by exact_mod_cast hbelow
    have hunit : halfUnit * (unitsInOne * d) = d / 2 := by
      unfold halfUnit
      rw [← mul_assoc, div_mul_cancel₀ _ (ne_of_gt unitsInOne_cast_pos)]
      ring
    have hone := one_le_one_add_roundoff
    have hside {a b : ℚ} (hb : 0 ≤ b) (hab : a ≤ b + halfUnit) :
        a ≤ (b + halfUnit) * (1 + roundoff) ^ 1 := by
      have hsum : 0 ≤ b + halfUnit := by linarith
      rw [pow_one]
      exact hab.trans (le_mul_of_one_le_right hsum hone)
    constructor
    · refine hside h0 (le_of_mul_le_mul_right ?_ hscale)
      linarith
    · refine hside hx0 (le_of_mul_le_mul_right ?_ hscale)
      linarith

/-- Only one number is what a value is rounded to, up to the sign of a zero. -/
theorem key_eq (hx : Rounds v x) (hy : Rounds v y) : x.key = y.key :=
  Int.le_antisymm (hx.mono hy le_rfl).2.2 (hy.mono hx le_rfl).2.2

end Rounds

/-! ## Operations on exact numbers -/

theorem Unsigned.mul {x y : Binary64} (hx : x.Unsigned) (hy : y.Unsigned) (hfin : x.isFinite = true)
    (hfin' : y.isFinite = true) : (x * y).Unsigned := by
  obtain ⟨m, rfl, -⟩ := hx.exists_magnitude hfin
  obtain ⟨m', rfl, -⟩ := hy.exists_magnitude hfin'
  exact unsigned_ofUnits _ _

theorem Unsigned.div {x y : Binary64} (hx : x.Unsigned) (hy : y.Unsigned) (hfin : x.isFinite = true)
    (hfin' : y.isFinite = true) (h0 : 0 < y.key) : (x / y).Unsigned := by
  obtain ⟨m, rfl, -⟩ := hx.exists_magnitude hfin
  obtain ⟨m', rfl, hkey⟩ := hy.exists_magnitude hfin'
  rw [finite_div_finite false m (by omega)]
  exact unsigned_ofUnits _ _

/-- Whole numbers of 53 bits with zeros after them are their own values. -/
theorem toRat_ofNat_of_isGridPoint {n : Nat} (h : IsGridPoint n)
    (htop : n * unitsInOne ≤ unitsAtTop) : (ofNat n).toRat = n := by
  obtain ⟨m, e, hm, rfl⟩ := h
  have hpoint : IsGridPoint (m * 2 ^ e * unitsInOne) := by
    rw [Nat.mul_assoc, pow_mul_unitsInOne]
    exact ⟨m, _, hm, rfl⟩
  have hexact := roundedUnits_mul hpoint htop Nat.one_pos
  rw [Nat.mul_one] at hexact
  unfold toRat
  rw [key_ofNat, hexact, Int.cast_natCast, Nat.cast_mul]
  exact mul_div_cancel_right₀ _ (ne_of_gt unitsInOne_cast_pos)

end Binary64

end BenchGate
