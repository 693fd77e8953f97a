import BenchGate.Json.Value
import BenchGate.Proofs.Binary64.Averages

/-!
# Values that a document can hold

A count in a document fits in 64 bits, and so does the length of an array; a number that is not a
whole one is finite. `Json.Fits` says this of a value and of everything in it. The lenient accessors
then answer with numbers in range: `toMeasure` always, `toCount` for values that fit.
-/

namespace BenchGate

/-- A number that a document can hold. -/
def JsonNumber.Fits : JsonNumber → Prop
  | natural n => n < 2 ^ 64
  | negative n => 0 < n ∧ n ≤ 2 ^ 63
  | binary x => x.isFinite = true

theorem Binary64.toCount_lt (x : Binary64) : x.toCount < 2 ^ 64 := by
  unfold Binary64.toCount
  split
  · exact Nat.lt_of_le_of_lt (Nat.min_le_right _ _) (by decide)
  · decide

namespace Json

/-- A value all of whose numbers and lengths fit in 64 bits. -/
inductive Fits : Json → Prop where
  | null : Fits null
  | bool (b : Bool) : Fits (bool b)
  | number {n : JsonNumber} : n.Fits → Fits (number n)
  | string (s : String) : Fits (string s)
  | array {elements : List Json} :
      elements.length < 2 ^ 64 → (∀ e ∈ elements, Fits e) → Fits (array elements)
  | object {fields : List (String × Json)} :
      (∀ f ∈ fields, Fits f.2) → Fits (object fields)

-- With these, `simp` tells of a document that is written out that it fits.
attribute [simp] Fits.null Fits.bool Fits.string

@[simp] theorem fits_number_iff {n : JsonNumber} : (number n).Fits ↔ n.Fits := by
  refine ⟨fun h => ?_, .number⟩
  cases h with
  | number hn => exact hn

@[simp] theorem fits_ofNat_iff {n : Nat} : (Json.ofNat n).Fits ↔ n < 2 ^ 64 := fits_number_iff

@[simp] theorem fits_array_iff {elements : List Json} :
    (array elements).Fits ↔ elements.length < 2 ^ 64 ∧ ∀ e ∈ elements, e.Fits := by
  refine ⟨fun h => ?_, fun h => .array h.1 h.2⟩
  cases h with
  | array hlength helements => exact ⟨hlength, helements⟩

@[simp] theorem fits_object_iff {fields : List (String × Json)} :
    (object fields).Fits ↔ ∀ f ∈ fields, f.2.Fits := by
  refine ⟨fun h => ?_, .object⟩
  cases h with
  | object hfields => exact hfields

theorem Fits.get? {v w : Json} (h : v.Fits) {key : String} (hw : v.get? key = some w) :
    w.Fits := by
  cases h with
  | object hf =>
      obtain ⟨l, l', hl, -⟩ := List.lookup_eq_some_iff.mp hw
      have hmem : (key, w) ∈ (l ++ (key, w) :: l') := List.mem_append_right l List.mem_cons_self
      rw [← hl, List.mem_reverse] at hmem
      exact hf _ hmem
  | null => exact absurd hw (by simp [Json.get?])
  | bool b => exact absurd hw (by simp [Json.get?])
  | number hn => exact absurd hw (by simp [Json.get?])
  | string s => exact absurd hw (by simp [Json.get?])
  | array hl he => exact absurd hw (by simp [Json.get?])

/-! ## What the accessors answer -/

/-- A measure is finite and not negative, whatever it was read from. -/
theorem toMeasure_bounds (v : Option Json) : (toMeasure v).isFinite = true ∧ 0 ≤ toMeasure v := by
  have hzero : (0 : Binary64).isFinite = true ∧ (0 : Binary64) ≤ 0 :=
    ⟨Binary64.isFinite_zero, Binary64.ofNat_nonneg 0⟩
  unfold toMeasure
  split
  · dsimp only
    split
    · assumption
    · exact hzero
  · exact hzero

/-- A count that was read fits in 64 bits. -/
theorem toCount_lt {v : Option Json} (h : ∀ w, v = some w → w.Fits) : toCount v < 2 ^ 64 := by
  unfold toCount
  split
  · rename_i n
    cases h _ rfl with
    | number hn =>
        cases n with
        | natural n => exact hn
        | negative n => exact Nat.two_pow_pos 64
        | binary x => exact x.toCount_lt
  · decide

end Json

end BenchGate
