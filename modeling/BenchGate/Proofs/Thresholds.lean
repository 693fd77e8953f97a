import BenchGate.Thresholds.Basic
import BenchGate.Proofs.Binary64.Averages

/-!
# What verification promises

Thresholds that pass `Thresholds.verify` are finite and not negative, and the ceiling on failures is
a share. Nothing else is promised, and nothing else is needed: with such thresholds no comparison is
against `nan`.
-/

namespace BenchGate

open Binary64

theorem IsAmount.ne_nan {x : Binary64} (h : IsAmount x) : x ≠ nan := ne_nan_of_isFinite h.1

theorem IsAmount.nonneg {x : Binary64} (h : IsAmount x) : 0 ≤ x :=
  (not_lt_iff h.ne_nan (ofNat_ne_nan 0)).mp h.2

namespace Thresholds

/-- **Verification accepts exactly the thresholds that are in range.** -/
theorem verify_eq_ok_iff (t : Thresholds) :
    t.verify = .ok () ↔ (∀ a ∈ t.amounts, IsAmount a.2) ∧ IsShare t.gate.failureRate := by
  unfold verify
  cases hf : t.amounts.find? fun amount => ¬ IsAmount amount.2 with
  | some fault =>
      have hmem := List.mem_of_find?_eq_some hf
      have hbad : ¬ IsAmount fault.2 := by simpa using List.find?_some hf
      constructor
      · intro h
        exact absurd h (by simp)
      · intro h
        exact absurd (h.1 fault hmem) hbad
  | none =>
      have hall : ∀ a ∈ t.amounts, IsAmount a.2 := by
        intro a ha
        simpa using List.find?_eq_none.mp hf a ha
      dsimp only
      split
      · rename_i hshare
        exact ⟨fun _ => ⟨hall, hshare⟩, fun _ => rfl⟩
      · rename_i hshare
        exact ⟨fun h => absurd h (by simp), fun h => absurd h.2 hshare⟩

/-- The built-in thresholds pass. -/
theorem standard_verify : standard.verify = .ok () :=
  (verify_eq_ok_iff standard).mpr (by decide +kernel)

/-- Thresholds in range, field by field. -/
structure InRange (t : Thresholds) : Prop where
  timeTolerance : IsAmount t.regression.time
  memoryTolerance : IsAmount t.regression.memory
  failureRateTolerance : IsAmount t.regression.failureRate
  timeCeiling : IsAmount t.gate.time
  memoryCeiling : IsAmount t.gate.memory
  failureRateCeiling : IsShare t.gate.failureRate

theorem inRange_of_verify {t : Thresholds} (h : t.verify = .ok ()) : t.InRange := by
  obtain ⟨hall, hshare⟩ := (verify_eq_ok_iff t).mp h
  simp only [amounts, List.forall_mem_cons] at hall
  exact ⟨hall.1, hall.2.1, hall.2.2.1, hall.2.2.2.1, hall.2.2.2.2.1, hshare⟩

end Thresholds

end BenchGate
