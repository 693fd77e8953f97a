import BenchGate.Proofs.Binary64.Values
import BenchGate.Proofs.Changes
import BenchGate.Proofs.Thresholds

/-!
# Changes at the tolerance

A flag is raised when a computed change is above its tolerance, and the exact change is another
number. Here the two are compared for changes in percent, in exact arithmetic on the values of the
numbers involved.

The difference, the quotient and the product by 100 are rounded. A flag that is raised means that
the exact change lacks less than two roundings of being above the tolerance, and one that is not
raised means that it is at most three roundings above. So a flag can be wrong only next to the
tolerance, and for a difference that is exact, as all are that matter to tolerances up to a hundred
percent, it is known when: the computed quotient has to be the hundredth of the tolerance, and a
hundred times that has to come out above the tolerance. Of ten and of fifteen percent it does not.
-/

namespace BenchGate

open Binary64

attribute [local irreducible] unitsInOne unitsAtTop Binary64.gapBelowOne

theorem toRat_hundred : (100 : Binary64).toRat = 100 := by
  have hundred := toRat_ofNat (n := 100) (by decide)
  rwa [Nat.cast_ofNat] at hundred

theorem one_le_hundred : (1 : Binary64) ≤ 100 := one_le_ofNat (by decide)

theorem hundred_pos : (0 : Binary64) < 100 := zero_lt_iff.mpr ⟨ofNat_ne_nan 100, key_hundred_pos⟩

/-! ## Changes of an average -/

/-- Values with which a change in percent means something. -/
structure Comparable (baseline current tolerance : Binary64) : Prop where
  baseline_finite : baseline.isFinite = true
  baseline_pos : 0 < baseline
  current_finite : current.isFinite = true
  tolerance : IsAmount tolerance

namespace Comparable

variable {b c p : Binary64} (h : Comparable b c p)
include h

/-- The change as a part of the baseline, which is then multiplied by 100. -/
theorem quotient_bounds (hlt : b < c) :
    0 ≤ (c - b) / b ∧
      ((c - b) / b).toRat * b.toRat ≤ (c.toRat - b.toRat) * (1 + roundoff) ^ 2 ∧
      (((c - b) / b).isFinite = true →
        roundoff ≤ ((c - b) / b).toRat * 100 ∧
        c.toRat - b.toRat ≤ ((c - b) / b).toRat * b.toRat * (1 + roundoff) ^ 2) := by
  have hu := roundoff_pos
  have hle := le_of_below hlt
  have hb0 := le_of_below h.baseline_pos
  have hpos := toRat_pos h.baseline_pos
  obtain ⟨habove, hbelow⟩ := sub_relative h.current_finite h.baseline_finite hb0 hle
  have hfin := isFinite_sub h.current_finite h.baseline_finite hb0 hle
  have hquotient := rounds_div hfin h.baseline_finite h.baseline_pos
  -- the difference is at least a spacing, so the quotient is not too small for its bits
  have hlow : roundoff ≤ (c - b).toRat / b.toRat := by
    have hstep := toRat_le_mul_sub h.current_finite h.baseline_finite hb0 hlt
    rw [le_div_iff₀ hpos]
    unfold roundoff
    linarith
  obtain ⟨hup, hdown⟩ := hquotient.relative_of_roundoff_le hlow
  have hq0 := hquotient.nonneg (le_trans (le_of_lt hu) hlow)
  refine ⟨hq0, ?_, fun hq => ⟨?_, ?_⟩⟩
  · rw [div_mul_eq_mul_div, le_div_iff₀ hpos] at hup
    calc ((c - b) / b).toRat * b.toRat ≤ (c - b).toRat * (1 + roundoff) := hup
      _ ≤ (c.toRat - b.toRat) * (1 + roundoff) * (1 + roundoff) := by gcongr
      _ = (c.toRat - b.toRat) * (1 + roundoff) ^ 2 := by ring
  · have hvalue := toRat_nonneg hq0
    have hone : roundoff ≤ 1 := by
      unfold roundoff
      norm_num
    calc roundoff ≤ ((c - b) / b).toRat * (1 + roundoff) := le_trans hlow (hdown hq)
      _ ≤ ((c - b) / b).toRat * 100 := by
        gcongr
        linarith
  · have hscaled := hdown hq
    rw [div_le_iff₀ hpos] at hscaled
    calc c.toRat - b.toRat ≤ (c - b).toRat * (1 + roundoff) := hbelow
      _ ≤ ((c - b) / b).toRat * (1 + roundoff) * b.toRat * (1 + roundoff) := by gcongr
      _ = ((c - b) / b).toRat * b.toRat * (1 + roundoff) ^ 2 := by ring

/-- A computed change above the tolerance was so before its last rounding. -/
theorem lt_of_lt_percentChange (hlt : b < c) (hp : p < percentChange b c) :
    p.toRat < ((c - b) / b).toRat * 100 := by
  have hq0 := (h.quotient_bounds hlt).1
  unfold percentChange at hp
  rw [if_pos h.baseline_pos] at hp
  rcases isFinite_or_infinity_of_nonneg hq0 with hq | hq
  · have hproduct := rounds_mul hq isFinite_hundred
    rw [toRat_hundred] at hproduct
    exact hproduct.lt_of_toRat_lt h.tolerance.1 hp
  · -- an infinite quotient is above every finite tolerance
    have htop := toRat_lt_toRat.mpr (lt_infinity h.tolerance.1).2.2
    have hvalue := toRat_nonneg hq0
    rw [hq] at hvalue ⊢
    linarith

/-- A computed change that is not above the tolerance was hardly so before its last rounding. -/
theorem le_of_not_lt_percentChange (hlt : b < c) (hp : ¬ p < percentChange b c) :
    ((c - b) / b).isFinite = true ∧ ((c - b) / b).toRat * 100 ≤ p.toRat * (1 + roundoff) := by
  obtain ⟨hq0, -, hbits⟩ := h.quotient_bounds hlt
  unfold percentChange at hp
  rw [if_pos h.baseline_pos] at hp
  have hq : ((c - b) / b).isFinite = true := by
    refine (isFinite_or_infinity_of_nonneg hq0).resolve_right fun hq => hp ?_
    have hproduct : infinity false * 100 = infinity false := by decide +kernel
    rw [hq, hproduct]
    exact lt_infinity h.tolerance.1
  have hproduct := rounds_mul hq isFinite_hundred
  have hle := (not_lt_iff h.tolerance.ne_nan hproduct.1).mp hp
  rw [toRat_hundred] at hproduct
  have hfin := isFinite_of_le (hproduct.nonneg (by have := toRat_nonneg hq0; positivity)) hle
    h.tolerance.1
  refine ⟨hq, ?_⟩
  calc ((c - b) / b).toRat * 100 ≤ ((c - b) / b * 100).toRat * (1 + roundoff) :=
        (hproduct.relative_of_roundoff_le (hbits hq).1).2 hfin
    _ ≤ p.toRat * (1 + roundoff) := by
      have hu := roundoff_pos
      gcongr
      exact toRat_mono hle

/-- The difference is exact when it matters to a tolerance of a hundred percent or less. -/
theorem toRat_sub_of_le_hundred (hlt : b < c) (hp : p ≤ 100)
    (hle : (c.toRat - b.toRat) * 100 ≤ p.toRat * b.toRat) :
    (c - b).toRat = c.toRat - b.toRat := by
  have hpos := toRat_pos h.baseline_pos
  have hhundred := toRat_mono hp
  rw [toRat_hundred] at hhundred
  have hscaled : p.toRat * b.toRat ≤ 100 * b.toRat := by gcongr
  exact toRat_sub_of_le_twice h.current_finite h.baseline_finite (le_of_below h.baseline_pos)
    (le_of_below hlt) (by linarith)

/-- With an exact difference, a change that is not above the tolerance is raised only if its
quotient is computed to be the hundredth of the tolerance. -/
theorem quotient_eq_of_lt_percentChange (hlt : b < c)
    (hexact : (c - b).toRat = c.toRat - b.toRat)
    (hle : (c.toRat - b.toRat) * 100 ≤ p.toRat * b.toRat) (hp : p < percentChange b c) :
    (c - b) / b = p / 100 := by
  have hpos := toRat_pos h.baseline_pos
  have hb0 := le_of_below h.baseline_pos
  have hfin := isFinite_sub h.current_finite h.baseline_finite hb0 (le_of_below hlt)
  have hquotient := rounds_div hfin h.baseline_finite h.baseline_pos
  have hhundredth := rounds_div h.tolerance.1 isFinite_hundred hundred_pos
  rw [toRat_hundred] at hhundredth
  -- the quotient is at most the hundredth of the tolerance, and not below it either
  have hup : (c - b) / b ≤ p / 100 := by
    refine hquotient.mono hhundredth ?_
    rw [hexact, div_le_div_iff₀ hpos (by norm_num)]
    exact hle
  have hq : ((c - b) / b).isFinite = true :=
    isFinite_of_le (h.quotient_bounds hlt).1 hup
      (isFinite_div h.tolerance.1 h.tolerance.nonneg isFinite_hundred one_le_hundred)
  have hdown : p / 100 ≤ (c - b) / b := by
    refine hhundredth.mono (rounds_toRat hq) ?_
    rw [div_le_iff₀ (by norm_num)]
    exact le_of_lt (h.lt_of_lt_percentChange hlt hp)
  have hkey : 0 < ((c - b) / b).key := by
    have hvalue := h.lt_of_lt_percentChange hlt hp
    have htolerance := toRat_nonneg h.tolerance.nonneg
    rw [← key_zero_literal, ← toRat_lt_toRat, toRat_zero]
    linarith
  exact eq_of_key_eq hup.1 hup.2.1 (Int.le_antisymm hup.2.2 hdown.2.2) (by omega)

/-- A change whose flag is raised lacks less than two roundings of being above the tolerance. -/
theorem lt_change_of_raised (hlt : b < c) (hp : p < percentChange b c) :
    p.toRat * b.toRat < (c.toRat - b.toRat) * 100 * (1 + roundoff) ^ 2 := by
  have hpos := toRat_pos h.baseline_pos
  have habove := h.lt_of_lt_percentChange hlt hp
  obtain ⟨-, hquotient, -⟩ := h.quotient_bounds hlt
  calc p.toRat * b.toRat < ((c - b) / b).toRat * 100 * b.toRat := by gcongr
    _ = ((c - b) / b).toRat * b.toRat * 100 := by ring
    _ ≤ (c.toRat - b.toRat) * (1 + roundoff) ^ 2 * 100 := by gcongr
    _ = (c.toRat - b.toRat) * 100 * (1 + roundoff) ^ 2 := by ring

/-- A change without a flag is at most three roundings above the tolerance. -/
theorem change_le_of_not_raised (hlt : b < c) (hp : ¬ p < percentChange b c) :
    (c.toRat - b.toRat) * 100 ≤ p.toRat * b.toRat * (1 + roundoff) ^ 3 := by
  have hu := roundoff_pos
  have hpos := toRat_pos h.baseline_pos
  obtain ⟨hfin, hbelow⟩ := h.le_of_not_lt_percentChange hlt hp
  obtain ⟨-, -, hquotient⟩ := h.quotient_bounds hlt
  calc (c.toRat - b.toRat) * 100
      ≤ ((c - b) / b).toRat * b.toRat * (1 + roundoff) ^ 2 * 100 := by
        gcongr
        exact (hquotient hfin).2
    _ = ((c - b) / b).toRat * 100 * (b.toRat * (1 + roundoff) ^ 2) := by ring
    _ ≤ p.toRat * (1 + roundoff) * (b.toRat * (1 + roundoff) ^ 2) := by gcongr
    _ = p.toRat * b.toRat * (1 + roundoff) ^ 3 := by ring

/-- A quotient that is the hundredth of the tolerance is compared after it is multiplied back. -/
theorem lt_percentChange_iff_of_quotient_eq (hquotient : (c - b) / b = p / 100) :
    p < percentChange b c ↔ p < p / 100 * 100 := by
  unfold percentChange
  rw [if_pos h.baseline_pos, hquotient]

/-- With an exact difference, the flag of a change that is not above the tolerance is raised only by
the rounding of the hundredth and of the product by 100. -/
theorem lt_percentChange_iff (hlt : b < c)
    (hexact : p ≤ 100 ∨ (c - b).toRat = c.toRat - b.toRat)
    (hle : (c.toRat - b.toRat) * 100 ≤ p.toRat * b.toRat) :
    p < percentChange b c ↔ (c - b) / b = p / 100 ∧ p < p / 100 * 100 := by
  constructor
  · intro hp
    have hdifference : (c - b).toRat = c.toRat - b.toRat :=
      hexact.elim (fun hhundred => h.toRat_sub_of_le_hundred hlt hhundred hle) id
    have hquotient := h.quotient_eq_of_lt_percentChange hlt hdifference hle hp
    exact ⟨hquotient, (h.lt_percentChange_iff_of_quotient_eq hquotient).mp hp⟩
  · rintro ⟨hquotient, hp⟩
    exact (h.lt_percentChange_iff_of_quotient_eq hquotient).mpr hp

end Comparable

/-- How a raised flag and the exact change stand to each other. -/
structure JudgesChange (b c p : Binary64) (raised : Bool) : Prop where
  /-- A raised flag is for a change that lacks less than two roundings of being above. -/
  of_raised : raised = true → p.toRat * b.toRat < (c.toRat - b.toRat) * 100 * (1 + roundoff) ^ 2
  /-- Without a flag the change is at most three roundings above. -/
  of_not_raised :
    raised = false → (c.toRat - b.toRat) * 100 ≤ p.toRat * b.toRat * (1 + roundoff) ^ 3
  /-- When the flag is raised although the exact change is not above the tolerance. -/
  raised_iff : (p ≤ 100 ∨ (c - b).toRat = c.toRat - b.toRat) →
    (c.toRat - b.toRat) * 100 ≤ p.toRat * b.toRat →
    (raised = true ↔ (c - b) / b = p / 100 ∧ p < p / 100 * 100)

/-- **The comparison of a change with its tolerance is right up to roundings.** -/
theorem Comparable.judgesChange {b c p : Binary64} (h : Comparable b c p) :
    JudgesChange b c p (decide (p < percentChange b c)) := by
  by_cases hlt : b < c
  · constructor
    · intro hraised
      exact h.lt_change_of_raised hlt (of_decide_eq_true hraised)
    · intro hquiet
      exact h.change_le_of_not_raised hlt (of_decide_eq_false hquiet)
    · intro hexact hle
      rw [decide_eq_true_iff]
      exact h.lt_percentChange_iff hlt hexact hle
  · -- nothing is raised for a change that is no increase
    have hcb := (not_lt_iff (ne_nan_of_isFinite h.baseline_finite)
      (ne_nan_of_isFinite h.current_finite)).mp hlt
    have hquiet : ¬ p < percentChange b c := percentChange_not_above_of_le h.tolerance.nonneg hcb
    rw [decide_eq_false hquiet]
    refine ⟨nofun, fun _ => ?_, fun _ _ => ⟨nofun, fun hp => absurd ?_ hquiet⟩⟩
    · have hu := roundoff_pos
      have hpos := toRat_pos h.baseline_pos
      have htolerance := toRat_nonneg h.tolerance.nonneg
      have hvalue := toRat_mono hcb
      have hright : 0 ≤ p.toRat * b.toRat * (1 + roundoff) ^ 3 := by positivity
      linarith
    · exact (h.lt_percentChange_iff_of_quotient_eq hp.1).mpr hp.2

/-! ## The flags of time and memory -/

namespace Regression

variable (baseline : Metrics) {current : Metrics} {t : Tolerances}

/-- With enough successes, each flag compares one change with its tolerance. -/
theorem between_flags (henough : t.minBenchmarks ≤ current.successful) :
    (between baseline current t).timeRegressed =
        decide (t.time < percentChange baseline.averageTime current.averageTime) ∧
      (between baseline current t).memoryRegressed =
        decide (t.memory < percentChange baseline.averageMemory current.averageMemory) ∧
      (between baseline current t).failureRateRegressed =
        decide (t.failureRate / 100 < current.failureRate - baseline.failureRate) := by
  unfold between
  rw [if_neg (Nat.not_lt.mpr henough)]
  exact ⟨rfl, rfl, rfl⟩

/--
**The flags of time and memory judge the exact changes**, up to roundings. A flag is raised at the
tolerance only if the tolerance comes out above itself when it is divided by 100 and multiplied
back.
-/
theorem between_judgesChange (henough : t.minBenchmarks ≤ current.successful) :
    (Comparable baseline.averageTime current.averageTime t.time →
      JudgesChange baseline.averageTime current.averageTime t.time
        (between baseline current t).timeRegressed) ∧
    (Comparable baseline.averageMemory current.averageMemory t.memory →
      JudgesChange baseline.averageMemory current.averageMemory t.memory
        (between baseline current t).memoryRegressed) := by
  obtain ⟨htime, hmemory, -⟩ := between_flags baseline henough
  rw [htime, hmemory]
  exact ⟨Comparable.judgesChange, Comparable.judgesChange⟩

/-- Ten percent more time and fifteen more memory are at the standard tolerances, and pass. -/
theorem between_judgesChange_standard :
    let r := between (.make 100 100 0 5 5) (.make 110 115 0 5 5) .standard
    r.timeRegressed = false ∧ r.memoryRegressed = false := by
  have henough : Tolerances.standard.minBenchmarks ≤ (Metrics.make 110 115 0 5 5).successful := by
    decide
  have hjudged := between_judgesChange (.make 100 100 0 5 5) henough
  have htime := hjudged.1 ⟨by decide +kernel, by decide +kernel, by decide +kernel,
    by decide +kernel⟩
  have hmemory := hjudged.2 ⟨by decide +kernel, by decide +kernel, by decide +kernel,
    by decide +kernel⟩
  constructor
  · rw [← Bool.not_eq_true, htime.raised_iff (.inl (by decide +kernel)) ?_]
    · exact fun h => absurd h.2 (by decide +kernel)
    · change ((ofNat 110).toRat - (ofNat 100).toRat) * 100 ≤ (ofNat 10).toRat * (ofNat 100).toRat
      rw [toRat_ofNat (by decide), toRat_ofNat (by decide), toRat_ofNat (by decide)]
      norm_num
  · rw [← Bool.not_eq_true, hmemory.raised_iff (.inl (by decide +kernel)) ?_]
    · exact fun h => absurd h.2 (by decide +kernel)
    · change ((ofNat 115).toRat - (ofNat 100).toRat) * 100 ≤ (ofNat 15).toRat * (ofNat 100).toRat
      rw [toRat_ofNat (by decide), toRat_ofNat (by decide), toRat_ofNat (by decide)]
      norm_num

/-- Seven percent more than 100 raises both flags at a tolerance of seven percent. -/
theorem between_sevenPercent :
    let baseline := Metrics.make 100 100 0 5 5
    let current := Metrics.make 107 107 0 5 5
    let t : Tolerances := { Tolerances.standard with time := 7, memory := 7 }
    t.minBenchmarks ≤ current.successful ∧
      (between baseline current t).timeRegressed = true ∧
      (between baseline current t).memoryRegressed = true ∧
      (current.averageTime.toRat - baseline.averageTime.toRat) * 100 =
        t.time.toRat * baseline.averageTime.toRat ∧
      (current.averageMemory.toRat - baseline.averageMemory.toRat) * 100 =
        t.memory.toRat * baseline.averageMemory.toRat := by
  have hexact : ((ofNat 107).toRat - (ofNat 100).toRat) * 100 =
      (ofNat 7).toRat * (ofNat 100).toRat := by
    rw [toRat_ofNat (by decide), toRat_ofNat (by decide), toRat_ofNat (by decide)]
    norm_num
  exact ⟨by decide, by decide +kernel, by decide +kernel, hexact, hexact⟩

end Regression

end BenchGate
