import BenchGate.Proofs.AtCeiling
import BenchGate.Proofs.Regating
import BenchGate.Proofs.Statistics

/-!
# Hints and reasons

Hints and the reasons of the gate are found apart from each other. The gate looks at the averages of
a run, whatever the run is; a hint on an average is only given where something succeeded; and the
hints on suites come from another reduction of the same records. They agree all the same:

* a run in which nothing succeeded has averages of zero, and no ceiling is below that;
* the figures of a suite are those of its records alone, so a hint on a suite is about the mean of
  that suite;
* where all records are of one suite, its mean is the average of the run.
-/

namespace BenchGate

open Binary64

attribute [local irreducible] unitsInOne unitsAtTop

/-! ## Suites above the ceiling -/

namespace Statistics

/-- The mean time of the successes of a suite. -/
def meanTime (records : List Record) (suite : String) : Binary64 :=
  mean (successTimes (recordsOf suite records))

/-- A suite with a success, whose mean time is above the ceiling. -/
def IsSlow (records : List Record) (ceiling : Binary64) (suite : String) : Prop :=
  (∃ r ∈ recordsOf suite records, r.success = true) ∧ ceiling < meanTime records suite

instance (records : List Record) (ceiling : Binary64) :
    DecidablePred (IsSlow records ceiling) := fun suite =>
  inferInstanceAs (Decidable
    ((∃ r ∈ recordsOf suite records, r.success = true) ∧ ceiling < meanTime records suite))

/-- The suites of some records that are above the ceiling, in the order of the statistics. -/
def slowSuites (records : List Record) (ceiling : Binary64) : List String :=
  (ofRecords .current records).suites.filter fun suite => IsSlow records ceiling suite

/-- The suites above the ceiling are listed once each, in the order of their bytes. -/
theorem listsOnce_slowSuites (records : List Record) (ceiling : Binary64) :
    ListsOnce (slowSuites records ceiling) (IsSlow records ceiling) := by
  refine listsOnce_of_increasing ((suites_increasing _ _ _).filter _) fun suite => ?_
  unfold slowSuites
  rw [List.mem_filter, decide_eq_true_eq]
  refine and_iff_right_of_imp fun hslow => (mem_suites_iff _ _).mpr ?_
  -- a suite with a success occurs
  obtain ⟨⟨r, hr, -⟩, -⟩ := hslow
  exact Classical.not_not.mp (mt (recordsOf_eq_nil_iff suite records).mpr (List.ne_nil_of_mem hr))

/-- **The hints on suites name the suites above the ceiling**, with their mean times. -/
theorem suiteHints_perSuite (records : List Record) (ceiling : Binary64) :
    suiteHints (ofRecords .current records).perSuite ceiling =
      (slowSuites records ceiling).map fun suite =>
        .slowSuite suite (meanTime records suite) := by
  unfold suiteHints slowSuites
  rw [ofRecords, perSuite_eq_map, List.filterMap_map, ← List.filterMap_eq_map,
    ← List.filterMap_eq_filter, List.filterMap_filterMap]
  refine List.filterMap_congr fun suite _ => ?_
  have hfigures := SuiteCount.describes_figures (recordsOf suite records)
  have hmean : (((recordsOf suite records).foldl SuiteCount.add {}).figures).averageTime =
      meanTime records suite :=
    (hfigures.averageTime .current).trans (Metrics.ofRecords_averageTime _)
  have hslow : (0 < (((recordsOf suite records).foldl SuiteCount.add {}).figures).successful ∧
      ceiling < meanTime records suite) ↔ IsSlow records ceiling suite := by
    rw [hfigures.successful, List.countP_pos_iff]
    rfl
  simp only [Function.comp_apply, hmean, hslow]
  by_cases h : IsSlow records ceiling suite <;> simp [h, Option.guard]

/-- With a single suite, what is slow is the run. -/
theorem isSlow_iff_of_all {records : List Record} {suite : String}
    (hall : ∀ r ∈ records, r.suite = suite) (ceiling : Binary64) :
    IsSlow records ceiling suite ↔
      0 < (Metrics.ofRecords records).successful ∧
        ceiling < (Metrics.ofRecords records).averageTime := by
  have hrecords : recordsOf suite records = records :=
    List.filter_eq_self.mpr fun r hr => decide_eq_true (hall r hr)
  unfold IsSlow meanTime
  rw [hrecords, Metrics.ofRecords_successful, List.countP_pos_iff, Metrics.ofRecords_averageTime]
  rfl

end Statistics

/-! ## The run as a whole -/

namespace Metrics

variable {records : List Record}

theorem ofRecords_eq_allFailed (h : (ofRecords records).successful = 0) :
    ofRecords records = allFailed records.length := by
  have hnone : records.filter Record.success = [] := by
    rw [ofRecords_successful, List.countP_eq_length_filter] at h
    exact List.length_eq_zero_iff.mp h
  unfold ofRecords
  rw [hnone]
  rfl

/-- No amount is above the averages of a run in which nothing succeeded. -/
theorem successful_pos_of_lt {ceiling : Binary64} (hceiling : IsAmount ceiling)
    (h : ceiling < (ofRecords records).averageTime ∨ ceiling < (ofRecords records).averageMemory) :
    0 < (ofRecords records).successful := by
  refine Nat.pos_of_ne_zero fun hnone => ?_
  rw [ofRecords_eq_allFailed hnone] at h
  exact hceiling.2 (h.elim id id)

end Metrics

section Records

variable {records : List Record} {ceilings : Ceilings} (htime : IsAmount ceilings.time)
  (hmemory : IsAmount ceilings.memory)
include htime hmemory

/-- **The hints on a run are its reasons**, then a high failure rate, then the slow suites. -/
theorem hintsFor_ofRecords (hne : records ≠ []) (detected : Bool) :
    let m := Metrics.ofRecords records
    let d := GateVerdict.ofMetrics m detected ceilings
    hintsFor m (Statistics.ofRecords .current records).perSuite ceilings =
      (if d.Blames .time then [.slowOperations m.averageTime] else []) ++
      (if d.Blames .memory then [.memoryUsage m.averageMemory] else []) ++
      (if highFailureRate < m.failureRate then [.highFailureRate m.failureRate] else []) ++
      (Statistics.slowSuites records ceilings.time).map fun suite =>
        .slowSuite suite (Statistics.meanTime records suite) := by
  intro m d
  have htotal : m.total ≠ 0 := by
    have hlength : m.total = records.length := Metrics.ofRecords_total records
    have hpos := List.length_pos_iff.mpr hne
    omega
  have hslow : (0 < m.successful ∧ ceilings.time < m.averageTime) ↔ d.Blames .time :=
    (and_iff_right_of_imp fun h => Metrics.successful_pos_of_lt htime (.inl h)).trans
      (GateVerdict.blames_iff m detected ceilings .time).symm
  have hlarge : (0 < m.successful ∧ ceilings.memory < m.averageMemory) ↔ d.Blames .memory :=
    (and_iff_right_of_imp fun h => Metrics.successful_pos_of_lt hmemory (.inr h)).trans
      (GateVerdict.blames_iff m detected ceilings .memory).symm
  unfold hintsFor
  rw [if_neg htotal, Statistics.suiteHints_perSuite]
  simp only [hslow, hlarge]

end Records

/-! ## Hints in an assessment -/

namespace Assessment

/--
**Hints agree with the gate and name exactly the slow suites.** The hints on a run of records are,
in this order: one on its time and one on its memory if the gate blames it for them, one on a
failure rate above a tenth, and one for every suite with a success whose mean time is above the
ceiling, once each and in the order of the bytes. If there is a single suite, it is named exactly
when there is a hint on the time of the run.
-/
theorem OfDocument.hints_agree {elements : List Json} (hne : elements ≠ []) {t : Thresholds}
    (ht : t.verify = .ok ()) {e : Assessment} (he : OfDocument (.array elements) t e) :
    let records := elements.map Record.ofJson
    (∃ slow, ListsOnce slow (Statistics.IsSlow records t.gate.time) ∧
      e.hints =
        (if e.gate.Blames .time then [.slowOperations e.current.averageTime] else []) ++
        (if e.gate.Blames .memory then [.memoryUsage e.current.averageMemory] else []) ++
        (if highFailureRate < e.current.failureRate
          then [.highFailureRate e.current.failureRate] else []) ++
        slow.map fun suite => .slowSuite suite (Statistics.meanTime records suite)) ∧
    ∀ suite, (∀ r ∈ records, r.suite = suite) →
      ((∃ average, .slowSuite suite average ∈ e.hints) ↔
        ∃ average, .slowOperations average ∈ e.hints) := by
  intro records
  have hrange := Thresholds.inRange_of_verify ht
  have hrecords : records ≠ [] := mt List.map_eq_nil_iff.mp hne
  obtain ⟨comparison, detected, rfl⟩ := he.exists_judge
  let m := Metrics.ofRecords records
  have hhints := hintsFor_ofRecords hrange.timeCeiling hrange.memoryCeiling hrecords detected
  have hlists := Statistics.listsOnce_slowSuites records t.gate.time
  refine ⟨⟨_, hlists, hhints⟩, fun suite hall => ?_⟩
  change (∃ average, _ ∈ hintsFor m (Statistics.ofRecords .current records).perSuite t.gate) ↔
    ∃ average, _ ∈ hintsFor m (Statistics.ofRecords .current records).perSuite t.gate
  have hnamed : (∃ average, .slowSuite suite average ∈
      hintsFor m (Statistics.ofRecords .current records).perSuite t.gate) ↔
        Statistics.IsSlow records t.gate.time suite := by
    rw [hhints, ← hlists.complete]
    simp
  have hgiven : (∃ average, .slowOperations average ∈
      hintsFor m (Statistics.ofRecords .current records).perSuite t.gate) ↔
        (GateVerdict.ofMetrics m detected t.gate).Blames .time := by
    rw [hhints]
    simp [m]
  rw [hnamed, hgiven, Statistics.isSlow_iff_of_all hall, GateVerdict.blames_iff]
  exact and_iff_right_of_imp fun h =>
    Metrics.successful_pos_of_lt hrange.timeCeiling (.inl h)

/-- A run of one suite that is above a second on average, whose suite is named. -/
theorem hints_agree_unnamed :
    let elements := [Json.timed (.natural 998), .timed (.natural 1003)]
    let e := ofDocuments (.array elements) none .standard
    ∃ average, .slowSuite Record.unnamed average ∈ e.hints := by
  intro elements e
  have he : OfDocument (.array elements) .standard e := .compared none
  have hagree := he.hints_agree (List.cons_ne_nil _ _) Thresholds.standard_verify
  have hall : ∀ r ∈ elements.map Record.ofJson, r.suite = Record.unnamed := by decide +kernel
  refine (hagree.2 _ hall).mpr ⟨nearest false 2001 2, ?_⟩
  have hslow : e.hints.head? = some (.slowOperations (nearest false 2001 2)) := by decide +kernel
  exact List.mem_of_head? hslow

end Assessment

end BenchGate
