import BenchGate.Assessment.Basic
import BenchGate.Proofs.Changes
import BenchGate.Proofs.Thresholds

/-!
# When a run is accepted

The verdict is put together from four parts, and each part has its own equivalence here:

* the run itself has not failed: there are benchmarks, and one of them succeeded;
* no average and no rate is above its ceiling;
* no regression was detected, or reported;
* against a baseline, enough benchmarks succeeded and no change is above its tolerance.

The parts test for *above*, and a number that is not above another is at most the other only when
neither is `nan`. That no `nan` can reach the gate follows from where metrics and thresholds lie.
The changes against a baseline are another matter: when the average of the baseline is infinite,
the change is `nan`, is not above anything, and the run passes.
-/

namespace BenchGate

open Binary64

attribute [local irreducible] unitsInOne unitsAtTop

/-! ## The parts of the verdict -/

/-- What the gate and the run itself are judged by, apart from a regression. -/
structure Metrics.Passes (m : Metrics) (ceilings : Ceilings) : Prop where
  nonempty : 0 < m.total
  success : 0 < m.successful
  time : ¬ ceilings.time < m.averageTime
  memory : ¬ ceilings.memory < m.averageMemory
  failureRate : ¬ ceilings.failureRate < m.failureRate

/-- What a run has to satisfy against a baseline. -/
structure Metrics.Tolerable (current baseline : Metrics) (tolerances : Tolerances) : Prop where
  enough : tolerances.minBenchmarks ≤ current.successful
  time : ¬ tolerances.time < percentChange baseline.averageTime current.averageTime
  memory : ¬ tolerances.memory < percentChange baseline.averageMemory current.averageMemory
  failureRate : ¬ tolerances.failureRate / 100 < current.failureRate - baseline.failureRate

theorem Regression.detected_eq_false_iff (baseline current : Metrics) (tolerances : Tolerances) :
    (Regression.between baseline current tolerances).detected = false
      ↔ current.Tolerable baseline tolerances := by
  unfold Regression.between
  split
  · rename_i h
    constructor
    · intro hd
      exact Bool.noConfusion hd
    · intro ht
      exact absurd ht.enough (Nat.not_le.mpr h)
  · rename_i h
    simp only [Bool.or_eq_false_iff, decide_eq_false_iff_not]
    constructor
    · rintro ⟨⟨htime, hmemory⟩, hrate⟩
      exact ⟨Nat.not_lt.mp h, htime, hmemory, hrate⟩
    · intro ht
      exact ⟨⟨ht.time, ht.memory⟩, ht.failureRate⟩

theorem GateVerdict.passed_iff (m : Metrics) (detected : Bool) (ceilings : Ceilings) :
    (GateVerdict.ofMetrics m detected ceilings).passed = true
      ↔ (¬ ceilings.time < m.averageTime ∧ ¬ ceilings.memory < m.averageMemory) ∧
        ¬ (0 < m.total ∧ ceilings.failureRate < m.failureRate) ∧ detected = false := by
  unfold GateVerdict.passed GateVerdict.ofMetrics
  rw [List.isEmpty_iff]
  simp only [List.append_eq_nil_iff, ite_eq_right_iff, List.cons_ne_nil, imp_false]
  cases detected <;> simp [and_assoc]

theorem Status.failure?_eq_none_iff (m : Metrics) (detected : Bool) :
    (Status.ofMetrics m detected).failure? = none ↔ 0 < m.total ∧ 0 < m.successful := by
  unfold Status.ofMetrics
  split
  · rename_i h
    simp [Status.failure?, h]
  · split
    · rename_i h
      simp [Status.failure?, h]
    · -- with a success, whatever the status is, it is no failure
      have : ∀ s : Status, s = .regression ∨ s = .partly ∨ s = .pass → s.failure? = none := by
        rintro s (rfl | rfl | rfl) <;> rfl
      refine ⟨fun _ => ⟨by omega, by omega⟩, fun _ => this _ ?_⟩
      split
      · exact .inl rfl
      · split
        · exact .inr (.inl rfl)
        · exact .inr (.inr rfl)

/-- **The verdict, part by part.** -/
theorem Assessment.judge_isAccepted_iff (results : Results) (comparison : Option Comparison)
    (detected : Bool) (t : Thresholds) :
    (judge results comparison detected t).isAccepted = true
      ↔ (Metrics.ofResults results).Passes t.gate ∧ detected = false := by
  unfold isAccepted failure? status regressionDetected judge
  rw [Bool.and_eq_true, Option.isNone_iff_eq_none, GateVerdict.passed_iff,
    Status.failure?_eq_none_iff]
  constructor
  · rintro ⟨⟨⟨htime, hmemory⟩, hrate, hdet⟩, htotal, hsucc⟩
    exact ⟨⟨htotal, hsucc, htime, hmemory, fun h => hrate ⟨htotal, h⟩⟩, hdet⟩
  · rintro ⟨h, hdet⟩
    exact ⟨⟨⟨h.time, h.memory⟩, fun hr => h.failureRate hr.2, hdet⟩, h.nonempty, h.success⟩

/-- The verdict on results that are compared here. -/
theorem Assessment.ofResults_isAccepted_iff (results : Results) (baseline : Option Results)
    (t : Thresholds) :
    (ofResults results baseline t).isAccepted = true
      ↔ (Metrics.ofResults results).Passes t.gate ∧
        ∀ b, baseline = some b →
          (Metrics.ofResults results).Tolerable (Metrics.ofResults b) t.regression := by
  unfold ofResults
  rw [judge_isAccepted_iff]
  cases baseline with
  | none => simp
  | some b =>
      simp only [Option.map_some, Option.some.injEq, forall_eq']
      rw [← Regression.detected_eq_false_iff]
      rfl

/-! ## The verdict on what a document holds -/

/-- The verdict on the value of a current document and that of a baseline, if there is one. -/
def Assessment.ofDocuments (current : Json) (baseline : Option Json) (t : Thresholds) :
    Assessment :=
  ofResults (.ofJson .current current) (baseline.map (.ofJson .baseline)) t

/-- The metrics of the value of a document. -/
def Metrics.ofDocument (origin : Origin) (v : Json) : Metrics := ofResults (.ofJson origin v)

/-- With ceilings in range and metrics in range, what is not above its ceiling is at most it. -/
theorem Metrics.passes_iff {m : Metrics} (hm : m.InRange) {t : Thresholds} (ht : t.InRange) :
    m.Passes t.gate ↔ (1 ≤ m.total ∧ 1 ≤ m.successful) ∧ m.averageTime ≤ t.gate.time ∧
      m.averageMemory ≤ t.gate.memory ∧ m.failureRate ≤ t.gate.failureRate := by
  have htime := not_lt_iff ht.timeCeiling.ne_nan hm.time_nonneg.2.1
  have hmemory := not_lt_iff ht.memoryCeiling.ne_nan hm.memory_nonneg.2.1
  have hrate := not_lt_iff ht.failureRateCeiling.1.2.1 hm.rate_nonneg.2.1
  constructor
  · intro h
    exact ⟨⟨h.nonempty, h.success⟩, htime.mp h.time, hmemory.mp h.memory, hrate.mp h.failureRate⟩
  · rintro ⟨⟨htotal, hsucc⟩, h⟩
    exact ⟨htotal, hsucc, htime.mpr h.1, hmemory.mpr h.2.1, hrate.mpr h.2.2⟩

/--
**The verdict on a document.** A run is accepted exactly when it has a success, its averages and its
failure rate are at most their ceilings, and against a baseline enough benchmarks succeeded and no
change is above its tolerance.

The gate compares numbers only. A change against a baseline value that is not positive is zero, and
a change of an average is `nan` only if the average of the baseline is infinite.
-/
theorem Assessment.ofDocuments_isAccepted_iff {current : Json} (hv : current.Fits)
    (baseline : Option Json) {t : Thresholds} (ht : t.verify = .ok ()) :
    let m := Metrics.ofDocument .current current
    ((ofDocuments current baseline t).isAccepted = true ↔
      (1 ≤ m.total ∧ 1 ≤ m.successful) ∧
      (m.averageTime ≤ t.gate.time ∧ m.averageMemory ≤ t.gate.memory ∧
        m.failureRate ≤ t.gate.failureRate) ∧
      ∀ b, baseline = some b → m.Tolerable (Metrics.ofDocument .baseline b) t.regression) ∧
    (∀ x ∈ [m.averageTime, m.averageMemory, m.failureRate, t.gate.time, t.gate.memory,
      t.gate.failureRate], x ≠ nan) ∧
    ∀ b, baseline = some b →
      let base := Metrics.ofDocument .baseline b
      (∀ c ∈ [(base.averageTime, m.averageTime), (base.averageMemory, m.averageMemory)],
        (¬ 0 < c.1 → percentChange c.1 c.2 = 0) ∧
        (percentChange c.1 c.2 = nan → c.1 = infinity false)) ∧
      m.failureRate - base.failureRate ≠ nan := by
  intro m
  have hm : m.InRange := Metrics.ofJson_inRange hv .current
  have hr := Thresholds.inRange_of_verify ht
  refine ⟨?_, ?_, ?_⟩
  · -- the parts of the verdict, put in the order of the statement
    have hpasses : m.Passes t.gate ↔ _ := Metrics.passes_iff hm hr
    have haccepted : (ofDocuments current baseline t).isAccepted = true ↔ m.Passes t.gate ∧ _ :=
      ofResults_isAccepted_iff (.ofJson .current current) (baseline.map (.ofJson .baseline)) t
    rw [haccepted, hpasses, and_assoc]
    refine and_congr_right fun _ => and_congr_right fun _ => ?_
    simp only [Option.map_eq_some_iff, forall_exists_index, and_imp, forall_apply_eq_imp_iff₂]
    exact Iff.rfl
  · -- being at least zero rules out `nan`, and so does being verified
    simp only [List.forall_mem_cons, List.not_mem_nil, false_implies, implies_true, and_true]
    exact ⟨hm.time_nonneg.2.1, hm.memory_nonneg.2.1, hm.rate_nonneg.2.1, hr.timeCeiling.ne_nan,
      hr.memoryCeiling.ne_nan, hr.failureRateCeiling.1.2.1⟩
  · -- of the baseline nothing is known but the shape of its metrics
    intro b _ base
    refine ⟨?_, (sub_finite (Metrics.isFinite_failureRate _) (Metrics.isFinite_failureRate _)).1⟩
    simp only [List.forall_mem_cons, List.not_mem_nil, false_implies, implies_true, and_true]
    exact ⟨⟨fun h => percentChange_of_not_pos h _,
        eq_infinity_of_percentChange_eq_nan hm.time_nonneg.2.1⟩,
      fun h => percentChange_of_not_pos h _,
      eq_infinity_of_percentChange_eq_nan hm.memory_nonneg.2.1⟩

/-- Ten percent more time than the baseline is still accepted. -/
theorem Assessment.ofDocuments_isAccepted_slower :
    (ofDocuments
      (.object [("successful_benchmarks", .ofNat 5), ("total_benchmarks", .ofNat 5),
        ("avg_execution_time", .ofNat 110)])
      (some (.object [("avg_execution_time", .ofNat 100)])) .standard).isAccepted = true := by
  have hfits : (Json.object [("successful_benchmarks", .ofNat 5), ("total_benchmarks", .ofNat 5),
      ("avg_execution_time", .ofNat 110)]).Fits := by simp
  refine (ofDocuments_isAccepted_iff hfits _ Thresholds.standard_verify).1.mpr
    ⟨by decide +kernel, by decide +kernel, fun b hb => ?_⟩
  cases hb
  exact ⟨by decide +kernel, by decide +kernel, by decide +kernel, by decide +kernel⟩

/-! ## A better run under looser thresholds -/

/-- No better in anything that is measured. The total does not matter. -/
structure Metrics.NoBetterThan (m n : Metrics) : Prop where
  time : n.averageTime ≤ m.averageTime
  memory : n.averageMemory ≤ m.averageMemory
  failureRate : n.failureRate ≤ m.failureRate
  successful : m.successful ≤ n.successful

/-- No looser in anything that is asked for. -/
structure Thresholds.NoLooserThan (s t : Thresholds) : Prop where
  timeTolerance : s.regression.time ≤ t.regression.time
  memoryTolerance : s.regression.memory ≤ t.regression.memory
  failureRateTolerance : s.regression.failureRate ≤ t.regression.failureRate
  minBenchmarks : t.regression.minBenchmarks ≤ s.regression.minBenchmarks
  timeCeiling : s.gate.time ≤ t.gate.time
  memoryCeiling : s.gate.memory ≤ t.gate.memory
  failureRateCeiling : s.gate.failureRate ≤ t.gate.failureRate

theorem Metrics.Passes.mono {m n : Metrics} {s t : Thresholds} (hmn : m.NoBetterThan n)
    (hn : n.successful ≤ n.total) (hst : s.NoLooserThan t) (h : m.Passes s.gate) :
    n.Passes t.gate where
  nonempty := Nat.lt_of_lt_of_le (Nat.lt_of_lt_of_le h.success hmn.successful) hn
  success := Nat.lt_of_lt_of_le h.success hmn.successful
  time := not_lt_of_le_of_le hst.timeCeiling hmn.time h.time
  memory := not_lt_of_le_of_le hst.memoryCeiling hmn.memory h.memory
  failureRate := not_lt_of_le_of_le hst.failureRateCeiling hmn.failureRate h.failureRate

theorem Metrics.Tolerable.mono {m n baseline : Metrics} {s t : Thresholds}
    (hmn : m.NoBetterThan n) (hb : baseline.failureRate.isFinite = true)
    (hst : s.NoLooserThan t) (h : m.Tolerable baseline s.regression) :
    n.Tolerable baseline t.regression where
  enough := Nat.le_trans hst.minBenchmarks (Nat.le_trans h.enough hmn.successful)
  time := percentChange_not_above hst.timeTolerance hmn.time h.time
  memory := percentChange_not_above hst.memoryTolerance hmn.memory h.memory
  failureRate := not_lt_of_le_of_le
    (div_le_div_right hst.failureRateTolerance isFinite_hundred key_hundred_pos)
    (sub_le_sub_right hmn.failureRate hb) h.failureRate

/--
**The verdict is monotone.** If a run is accepted under some thresholds, then a run that is no worse
is accepted under thresholds that are no stricter, against the same baseline or without one.
-/
theorem Assessment.isAccepted_mono {current better : Results} (baseline : Option Results)
    {s t : Thresholds}
    (hm : (Metrics.ofResults current).NoBetterThan (Metrics.ofResults better))
    (ht : s.NoLooserThan t) (h : (ofResults current baseline s).isAccepted = true) :
    (ofResults better baseline t).isAccepted = true := by
  rw [ofResults_isAccepted_iff] at h ⊢
  obtain ⟨hpasses, htolerable⟩ := h
  refine ⟨hpasses.mono hm (Metrics.successful_le_total better) ht, fun b hb => ?_⟩
  exact (htolerable b hb).mono hm (Metrics.isFinite_failureRate b) ht

/-- Five records of a millisecond each are accepted where five of two milliseconds are. -/
theorem Assessment.isAccepted_mono_faster :
    (ofResults (.ofRecords .current (List.replicate 5 (.basic "suite" "name" 1 0 true)))
      (some (.ofRecords .baseline [.basic "suite" "name" 2 0 true])) .standard).isAccepted =
      true := by
  have hm : (Metrics.ofResults (.ofRecords .current
      (List.replicate 5 (.basic "suite" "name" 2 0 true)))).NoBetterThan
      (Metrics.ofResults (.ofRecords .current
        (List.replicate 5 (.basic "suite" "name" 1 0 true)))) :=
    ⟨by decide +kernel, by decide +kernel, by decide +kernel, by decide +kernel⟩
  have ht : Thresholds.standard.NoLooserThan .standard :=
    ⟨by decide +kernel, by decide +kernel, by decide +kernel, by decide +kernel, by decide +kernel,
      by decide +kernel, by decide +kernel⟩
  exact isAccepted_mono _ hm ht (by decide +kernel)

/-! ## The same results again -/

/-- Metrics do not depend on which run the results belong to. -/
theorem Metrics.ofDocument_origin (origin : Origin) (v : Json) :
    ofDocument origin v = ofDocument .current v := by
  cases v <;> rfl

/-- **Against itself a run lacks nothing but successes.** -/
theorem Metrics.tolerable_self_iff {m : Metrics} (hrate : m.failureRate.isFinite = true)
    {t : Thresholds} (ht : t.InRange) :
    m.Tolerable m t.regression ↔ t.regression.minBenchmarks ≤ m.successful := by
  constructor
  · intro h
    exact h.enough
  · intro henough
    refine ⟨henough, percentChange_self_not_above ht.timeTolerance.nonneg _,
      percentChange_self_not_above ht.memoryTolerance.nonneg _, ?_⟩
    exact not_lt_of_nonneg_of_le_zero
      (div_nonneg ht.failureRateTolerance.nonneg isFinite_hundred key_hundred_pos)
      (sub_self_le hrate)

end BenchGate
