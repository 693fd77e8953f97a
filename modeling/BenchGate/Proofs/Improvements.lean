import BenchGate.Proofs.Agreement

/-!
# Improvements

A run whose averages and failure rate are each at most those of the baseline raises no flag,
whatever numbers these are: the operations of a change keep the order on zeros and on the smallest
numbers too, a change against an infinite average is `nan` and above no tolerance, and a change that
is no increase is above neither of the two zeros. The only thing left that such a run can lack are
successes.
-/

namespace BenchGate

open Binary64

attribute [local irreducible] unitsInOne unitsAtTop

/-- No worse in anything that is compared with a baseline. The counts do not matter. -/
structure Metrics.NoWorseThan (m n : Metrics) : Prop where
  time : m.averageTime ≤ n.averageTime
  memory : m.averageMemory ≤ n.averageMemory
  failureRate : m.failureRate ≤ n.failureRate

namespace Regression

variable {baseline current : Metrics} {tolerances : Tolerances}

/-- No flag is raised if no change is above its tolerance, whether it is looked at or not. -/
theorem not_raised_between
    (htime : ¬ tolerances.time < percentChange baseline.averageTime current.averageTime)
    (hmemory : ¬ tolerances.memory < percentChange baseline.averageMemory current.averageMemory)
    (hrate : ¬ tolerances.failureRate / 100 < current.failureRate - baseline.failureRate) :
    ¬ (between baseline current tolerances).Raised := by
  by_cases henough : tolerances.minBenchmarks ≤ current.successful
  · have hquiet : (between baseline current tolerances).detected = false :=
      (detected_eq_false_iff _ _ _).mpr ⟨henough, htime, hmemory, hrate⟩
    intro hraised
    rw [(between_tellsFindings baseline current tolerances).detected_of_raised hraised] at hquiet
    exact Bool.noConfusion hquiet
  · unfold between
    rw [if_pos (Nat.not_le.mp henough)]
    rintro (h | h | h) <;> exact Bool.noConfusion h

/-- No flag is raised, so that only the number of successes decides. -/
def DecidedByCount (r : Regression) (current : Metrics) (tolerances : Tolerances) : Prop :=
  (r.timeRegressed = false ∧ r.memoryRegressed = false ∧ r.failureRateRegressed = false) ∧
    (r.detected = true ↔ current.successful < tolerances.minBenchmarks)

theorem decidedByCount_of_not_raised (h : ¬ (between baseline current tolerances).Raised) :
    (between baseline current tolerances).DecidedByCount current tolerances := by
  have htells := between_tellsFindings baseline current tolerances
  refine ⟨?_, ?_⟩
  · unfold Raised at h
    simpa only [not_or, Bool.not_eq_true] using h
  · rw [← htells.detected_not_raised]
    exact (and_iff_left h).symm

/--
**No improvement is a regression.** Results of any shape that are no worse than the baseline raise
no flag under thresholds that were verified, and have regressed only if too few benchmarks
succeeded. The same holds for results that are their own baseline, which need not be said to be no
worse: an average that is `nan` is above no tolerance.
-/
theorem between_noWorse {t : Thresholds} (ht : t.verify = .ok ()) :
    (∀ base results : Results, (Metrics.ofResults results).NoWorseThan (.ofResults base) →
      (between (.ofResults base) (.ofResults results) t.regression).DecidedByCount
        (.ofResults results) t.regression) ∧
    ∀ results : Results,
      (between (.ofResults results) (.ofResults results) t.regression).DecidedByCount
        (.ofResults results) t.regression := by
  have hr := Thresholds.inRange_of_verify ht
  have hhundredth : 0 ≤ t.regression.failureRate / 100 :=
    div_nonneg hr.failureRateTolerance.nonneg isFinite_hundred key_hundred_pos
  constructor
  · intro base results h
    have hfinite := Metrics.isFinite_failureRate base
    refine decidedByCount_of_not_raised (not_raised_between ?_ ?_ ?_)
    · exact percentChange_not_above_of_le hr.timeTolerance.nonneg h.time
    · exact percentChange_not_above_of_le hr.memoryTolerance.nonneg h.memory
    · exact not_lt_of_nonneg_of_le_zero hhundredth
        (le_trans (sub_le_sub_right h.failureRate hfinite) (sub_self_le hfinite))
  · intro results
    refine decidedByCount_of_not_raised (not_raised_between ?_ ?_ ?_)
    · exact percentChange_self_not_above hr.timeTolerance.nonneg _
    · exact percentChange_self_not_above hr.memoryTolerance.nonneg _
    · exact not_lt_of_nonneg_of_le_zero hhundredth
        (sub_self_le (Metrics.isFinite_failureRate results))

/-- Five records whose times add up to infinity, as those of the baseline do. -/
theorem between_noWorse_infinite :
    let results origin :=
      Results.ofRecords origin (List.replicate 5 (.basic "suite" "name" (ofNat (2 ^ 1023)) 0 true))
    (Metrics.ofResults (results .current)).averageTime = infinity false ∧
      (between (.ofResults (results .baseline)) (.ofResults (results .current))
        .standard).detected = false := by
  intro results
  refine ⟨by decide +kernel, ?_⟩
  have hcount := ((between_noWorse Thresholds.standard_verify).1 (results .baseline)
    (results .current) ⟨by decide +kernel, by decide +kernel, by decide +kernel⟩).2
  rw [← Bool.not_eq_true]
  exact mt hcount.mp (by decide +kernel)

end Regression

end BenchGate
