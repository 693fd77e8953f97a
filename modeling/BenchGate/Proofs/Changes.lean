import BenchGate.Regression
import BenchGate.Proofs.Metrics

/-!
# Changes against a baseline

A change in percent is a difference, a quotient and a product, each of them rounded. For a baseline
that is finite and positive all three keep the order, so the change is monotone in the current
value, rounding and overflow included, and it is never `nan`. The other baselines are told apart:

* against a baseline that is not positive every change is zero;
* against an infinite baseline every change is `nan`, which is above no tolerance.
-/

namespace BenchGate

open Binary64

attribute [local irreducible] unitsInOne unitsAtTop

theorem isFinite_hundred : (100 : Binary64).isFinite = true := isFinite_ofNat (by decide)

theorem key_hundred_pos : 0 < (100 : Binary64).key := key_pos_of_one_le (one_le_ofNat (by decide))

theorem percentChange_of_not_pos {baseline : Binary64} (h : ¬ 0 < baseline) (current : Binary64) :
    percentChange baseline current = 0 := by
  unfold percentChange
  rw [if_neg h]

theorem percentChange_infinity (current : Binary64) :
    percentChange (infinity false) current = nan := by
  unfold percentChange
  split
  · cases current with
    | nan => rfl
    | infinity s => cases s <;> rfl
    | finite s m => rfl
  · rename_i h
    refine absurd (zero_lt_iff.mpr ⟨Binary64.noConfusion, ?_⟩) h
    exact Int.ofNat_lt.mpr unitsAtTop_pos

/-- **A change is monotone in the current value**, for every finite baseline. -/
theorem percentChange_le {baseline x y : Binary64} (hb : baseline ≠ infinity false) (h : x ≤ y) :
    percentChange baseline x ≤ percentChange baseline y := by
  by_cases hpos : 0 < baseline
  · rcases isFinite_or_infinity_of_nonneg (le_of_below hpos) with hfin | hinf
    · -- each of the three operations keeps the order
      unfold percentChange
      rw [if_pos hpos, if_pos hpos]
      exact mul_le_mul_right (div_le_div_right (sub_le_sub_right h hfin) hfin
        (zero_lt_iff.mp hpos).2) isFinite_hundred key_hundred_pos
    · exact absurd hinf hb
  · rw [percentChange_of_not_pos hpos, percentChange_of_not_pos hpos]
    exact le_refl (ofNat_ne_nan 0)

/-- Only an infinite baseline makes a change `nan`. -/
theorem eq_infinity_of_percentChange_eq_nan {baseline current : Binary64} (hc : current ≠ nan)
    (h : percentChange baseline current = nan) : baseline = infinity false := by
  by_cases hb : baseline = infinity false
  · exact hb
  · exact absurd h (percentChange_le hb (le_refl hc)).1

/-! ## Above a tolerance -/

/-- What is not above a tolerance is not above a looser one either, and nor is anything smaller. -/
theorem not_lt_of_le_of_le {a b x y : Binary64} (hab : a ≤ b) (hyx : y ≤ x) (h : ¬ a < x) :
    ¬ b < y := by
  intro hby
  exact h ⟨hab.1, hyx.2.1, by have := hab.2.2; have := hby.2.2; have := hyx.2.2; omega⟩

/-- **A smaller value is within a looser tolerance whenever a larger one is within a stricter.** -/
theorem percentChange_not_above {a b x y baseline : Binary64} (hab : a ≤ b) (hyx : y ≤ x)
    (h : ¬ a < percentChange baseline x) : ¬ b < percentChange baseline y := by
  by_cases hb : baseline = infinity false
  · rw [hb, percentChange_infinity]
    intro hlt
    exact hlt.2.1 rfl
  · exact not_lt_of_le_of_le hab (percentChange_le hb hyx) h

/-! ## Against itself -/

theorem le_zero_of_key_eq {x : Binary64} (hx : x ≠ nan) (h : x.key = 0) : x ≤ 0 :=
  ⟨hx, ofNat_ne_nan 0, Int.le_of_eq (h.trans key_zero_literal.symm)⟩

theorem sub_self_le {x : Binary64} (hx : x.isFinite = true) : x - x ≤ 0 := by
  obtain ⟨hnan, hkey⟩ := sub_finite hx hx
  refine le_zero_of_key_eq hnan ?_
  rw [hkey, Int.sub_self]
  simp [roundedKey, roundedUnits_zero]

theorem percentChange_self_le {x : Binary64} (hx : x ≠ infinity false) :
    percentChange x x ≤ 0 := by
  by_cases hpos : 0 < x
  · have hfin : x.isFinite = true :=
      (isFinite_or_infinity_of_nonneg (le_of_below hpos)).resolve_right hx
    have hkey : 0 < x.key := (zero_lt_iff.mp hpos).2
    -- a difference of zero stays zero through the quotient and the product
    have hquotient : (x - x) / x ≤ 0 :=
      le_trans (div_le_div_right (sub_self_le hfin) hfin hkey)
        (le_zero_of_key_eq (div_finite isFinite_zero hfin hkey).1 (zero_div_key hfin hkey))
    have hproduct : (0 : Binary64) * 100 ≤ 0 :=
      le_zero_of_key_eq (mul_finite isFinite_zero isFinite_hundred).1
        (zero_mul_key isFinite_hundred)
    unfold percentChange
    rw [if_pos hpos]
    exact le_trans (mul_le_mul_right hquotient isFinite_hundred key_hundred_pos) hproduct
  · rw [percentChange_of_not_pos hpos]
    exact le_refl (ofNat_ne_nan 0)

theorem not_lt_of_nonneg_of_le_zero {tolerance x : Binary64} (ht : 0 ≤ tolerance) (hx : x ≤ 0) :
    ¬ tolerance < x :=
  not_lt_of_le_of_le ht hx fun h => Int.lt_irrefl _ h.2.2

/-- **Nothing is worse than itself**, under any tolerance. -/
theorem percentChange_self_not_above {tolerance : Binary64} (ht : 0 ≤ tolerance) (x : Binary64) :
    ¬ tolerance < percentChange x x := by
  by_cases hx : x = infinity false
  · rw [hx, percentChange_infinity]
    intro h
    exact h.2.1 rfl
  · exact not_lt_of_nonneg_of_le_zero ht (percentChange_self_le hx)

/-- **No improvement is above a tolerance**, against a baseline of any kind. -/
theorem percentChange_not_above_of_le {tolerance baseline x : Binary64} (ht : 0 ≤ tolerance)
    (h : x ≤ baseline) : ¬ tolerance < percentChange baseline x :=
  percentChange_not_above (le_refl ht.2.1) h (percentChange_self_not_above ht baseline)

end BenchGate
