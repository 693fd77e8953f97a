import Mathlib.Data.List.Forall2
import BenchGate.Proofs.Binary64.Averages

/-!
# Sums and the two zeros

The two zeros are equal in value, but they are two numbers, and a sum could tell them apart. A sum
that begins at the zero without a sign does not: what it adds is not negative, so it never becomes
a zero with a sign, and to any other number both zeros add nothing. So the mean of numbers that are
not negative depends on nothing but their values.
-/

namespace BenchGate

attribute [local irreducible] unitsInOne unitsAtTop

namespace Binary64

/-- Equal in value, as the two zeros are; `nan` is equal to nothing. -/
def SameValue (x y : Binary64) : Prop := x ≤ y ∧ y ≤ x

theorem sameValue_iff {x y : Binary64} :
    x.SameValue y ↔ x ≠ nan ∧ y ≠ nan ∧ x.key = y.key := by
  constructor
  · rintro ⟨hxy, hyx⟩
    exact ⟨hxy.1, hxy.2.1, Int.le_antisymm hxy.2.2 hyx.2.2⟩
  · rintro ⟨hx, hy, hkey⟩
    exact ⟨⟨hx, hy, Int.le_of_eq hkey⟩, hy, hx, Int.le_of_eq hkey.symm⟩

/-- What is above a number is above its value, whichever zero that is. -/
theorem SameValue.lt_iff {x y z : Binary64} (h : x.SameValue y) : x < z ↔ y < z := by
  obtain ⟨hx, hy, hkey⟩ := sameValue_iff.mp h
  rw [Binary64.lt_iff, Binary64.lt_iff, hkey]
  exact ⟨fun hlt => ⟨hy, hlt.2⟩, fun hlt => ⟨hx, hlt.2⟩⟩

/-- A number without a sign, a zero among them. -/
def Unsigned : Binary64 → Prop
  | nan => False
  | infinity s => s = false
  | finite s _ => s = false

theorem unsigned_zero : Unsigned 0 := by
  rw [zero_eq]
  exact rfl

theorem Unsigned.key_nonneg {x : Binary64} (h : x.Unsigned) : 0 ≤ x.key := by
  cases x with
  | nan => exact h.elim
  | infinity s =>
      obtain rfl : s = false := h
      exact Int.natCast_nonneg _
  | finite s m =>
      obtain rfl : s = false := h
      exact Int.natCast_nonneg _

theorem unsigned_ofUnits (n d : Nat) : (ofUnits false n d).Unsigned := by
  unfold ofUnits
  split <;> rfl

/-- The sum of an unsigned finite number and another finite one depends on the key of that only. -/
theorem finite_add_finite (m m' : Magnitude) (s : Bool) :
    (finite false m + finite s m' : Binary64) =
      if (finite false m).key + (finite s m').key = 0 then zero false
      else ofUnits (decide ((finite false m).key + (finite s m').key < 0))
        ((finite false m).key + (finite s m').key).natAbs 1 := rfl

variable {sum x y : Binary64}

theorem Unsigned.add (h : sum.Unsigned) (hx : 0 ≤ x) : (sum + x).Unsigned := by
  have hnonneg := (zero_le_iff.mp hx).2
  cases sum with
  | nan => exact h.elim
  | infinity s =>
      obtain rfl : s = false := h
      cases x with
      | nan => exact absurd rfl hx.2.1
      | infinity t =>
          obtain rfl := eq_false_of_infinity_nonneg hnonneg
          exact rfl
      | finite t m => exact rfl
  | finite s m =>
      obtain rfl : s = false := h
      cases x with
      | nan => exact absurd rfl hx.2.1
      | infinity t =>
          obtain rfl := eq_false_of_infinity_nonneg hnonneg
          exact rfl
      | finite t m' =>
          have hsum : 0 ≤ (finite false m).key := Unsigned.key_nonneg (x := finite false m) rfl
          rw [finite_add_finite]
          split
          · exact rfl
          · rw [decide_eq_false (by omega)]
            exact unsigned_ofUnits _ _

/-- To a number without a sign, numbers of the same value add the same. -/
theorem Unsigned.add_congr (h : sum.Unsigned) (hxy : x.SameValue y) : sum + x = sum + y := by
  obtain ⟨hx, hy, hkey⟩ := sameValue_iff.mp hxy
  by_cases h0 : x.key = 0
  · -- two zeros, perhaps of different signs
    have hzero : (0 : Int).natAbs < unitsAtTop := unitsAtTop_pos
    obtain ⟨s, m, rfl⟩ := isFinite_iff.mp (isFinite_of_abs_key_lt hx (by rwa [h0]))
    obtain ⟨t, m', rfl⟩ := isFinite_iff.mp (isFinite_of_abs_key_lt hy (by rwa [← hkey, h0]))
    cases sum with
    | nan => exact h.elim
    | infinity u => rfl
    | finite u n =>
        obtain rfl : u = false := h
        rw [finite_add_finite, finite_add_finite, hkey]
  · rw [eq_of_key_eq hx hy hkey h0]

/-- **A sum depends on the values of its numbers only.** -/
theorem foldl_add_congr {xs ys : List Binary64} (h : List.Forall₂ SameValue xs ys)
    (hnonneg : ∀ x ∈ xs, 0 ≤ x) (hsum : sum.Unsigned) :
    xs.foldl (· + ·) sum = ys.foldl (· + ·) sum := by
  induction h generalizing sum with
  | nil => rfl
  | @cons x y xs ys hxy _ ih =>
      have hx := hnonneg x List.mem_cons_self
      have hrest : ∀ z ∈ xs, 0 ≤ z := fun z hz => hnonneg z (List.mem_cons_of_mem _ hz)
      rw [List.foldl_cons, List.foldl_cons, ← hsum.add_congr hxy]
      exact ih hrest (hsum.add hx)

/-- **So does a mean.** -/
theorem mean_congr {xs ys : List Binary64} (h : List.Forall₂ SameValue xs ys)
    (hnonneg : ∀ x ∈ xs, 0 ≤ x) : mean xs = mean ys := by
  have hlen := h.length_eq
  have hempty : xs.isEmpty = ys.isEmpty := by
    cases h <;> rfl
  unfold mean
  rw [hempty, hlen, foldl_add_congr h hnonneg unsigned_zero]

end Binary64

end BenchGate
