import Std.Data.ExtTreeMap.Lemmas
import BenchGate.Proofs.FailureRate
import BenchGate.Statistics

/-!
# The statistics of each suite

The records of all suites are counted in one pass, whatever order they come in. What the pass has
counted of a suite is what a pass over the records of that suite alone would have counted:

* a record changes the count of its own suite only (`getElem?_countIn`);
* so the count of a suite goes through the records of that suite, in their order
  (`getElem?_foldl_countIn`), and the suites that are counted are those that occur;
* counting one suite adds up totals and successes and collects the times of the successes
  (`SuiteCount.foldl_add`), of which the average is then taken as it is for a whole run.

The order of the records inside a suite matters, since sums are rounded from left to right. The
order among the suites does not.
-/

namespace BenchGate

/-! ## Counting one suite -/

namespace SuiteCount

variable {records : List Record}

theorem add_of_success {record : Record} (h : record.success = true) (count : SuiteCount) :
    count.add record =
      ⟨count.total + 1, count.successful + 1, count.times.push record.executionTime⟩ := by
  simp [add, h]

theorem add_of_failure {record : Record} (h : record.success = false) (count : SuiteCount) :
    count.add record = ⟨count.total + 1, count.successful, count.times⟩ := by
  simp [add, h]

/-- **What is counted of records**, on top of what was counted before. -/
theorem foldl_add (count : SuiteCount) (records : List Record) :
    records.foldl add count =
      { total := count.total + records.length
        successful := count.successful + records.countP Record.success
        times := count.times ++
          ((records.filter Record.success).map Record.executionTime).toArray } := by
  induction records generalizing count with
  | nil => simp
  | cons record records ih =>
      rw [List.foldl_cons, ih]
      cases h : record.success with
      | true =>
          rw [add_of_success h]
          simp only [List.length_cons, List.countP_cons_of_pos h, List.filter_cons_of_pos h,
            List.map_cons, mk.injEq]
          refine ⟨by omega, by omega, ?_⟩
          rw [← Array.append_singleton, Array.append_assoc]
          simp
      | false =>
          have hneg : ¬ record.success = true := by simp [h]
          rw [add_of_failure h]
          simp only [List.length_cons, List.countP_cons_of_neg hneg, List.filter_cons_of_neg hneg,
            mk.injEq]
          exact ⟨by omega, trivial, trivial⟩

end SuiteCount

/-- The statistics of a suite are those of its records alone. -/
structure SuiteFigures.Describes (figures : SuiteFigures) (records : List Record) : Prop where
  total : figures.total = records.length
  successful : figures.successful = records.countP Record.success
  successRate : figures.successRate =
    Binary64.share (records.countP Record.success) records.length
  /-- The time is that of a run with these records only. -/
  averageTime : ∀ origin,
    figures.averageTime = (Metrics.ofResults (.ofRecords origin records)).averageTime

theorem SuiteFigures.Describes.unique {records : List Record} {figures other : SuiteFigures}
    (h : figures.Describes records) (h' : other.Describes records) : figures = other := by
  obtain ⟨total, successful, successRate, averageTime⟩ := figures
  obtain ⟨total', successful', successRate', averageTime'⟩ := other
  simp only [mk.injEq]
  exact ⟨h.total.trans h'.total.symm, h.successful.trans h'.successful.symm,
    h.successRate.trans h'.successRate.symm,
    (h.averageTime .current).trans (h'.averageTime .current).symm⟩

theorem SuiteCount.describes_figures (records : List Record) :
    (records.foldl add {}).figures.Describes records := by
  rw [foldl_add]
  unfold figures
  simp only [Nat.zero_add]
  refine ⟨rfl, rfl, rfl, fun origin => ?_⟩
  have hmean := Metrics.ofRecords_averageTime records
  simp only [Array.empty_append]
  exact hmean.symm

/-! ## Counting all suites -/

namespace Statistics

variable {counts : Std.ExtTreeMap String SuiteCount} {records : List Record}

/-- The records of one suite, in their order. -/
def recordsOf (suite : String) (records : List Record) : List Record :=
  records.filter fun record => record.suite = suite

theorem recordsOf_cons (suite : String) (record : Record) (records : List Record) :
    recordsOf suite (record :: records) =
      if record.suite = suite then record :: recordsOf suite records
      else recordsOf suite records := by
  unfold recordsOf
  rw [List.filter_cons]
  simp only [decide_eq_true_eq]

theorem recordsOf_eq_nil_iff (suite : String) (records : List Record) :
    recordsOf suite records = [] ↔ suite ∉ records.map Record.suite := by
  unfold recordsOf
  simp

/-- A record counts for its suite, and for no other one. -/
theorem getElem?_countIn (counts : Std.ExtTreeMap String SuiteCount) (record : Record)
    (suite : String) :
    (countIn counts record)[suite]? =
      if record.suite = suite then some (SuiteCount.add (counts[suite]?.getD {}) record)
      else counts[suite]? := by
  unfold countIn
  rw [Std.ExtTreeMap.getElem?_alter]
  by_cases h : record.suite = suite
  · simp [h]
  · simp [h]

/-- **The pass counts each suite by its own records**, whatever comes between them. -/
theorem getElem?_foldl_countIn (counts : Std.ExtTreeMap String SuiteCount) (records : List Record)
    (suite : String) :
    (records.foldl countIn counts)[suite]? =
      if recordsOf suite records = [] then counts[suite]?
      else some ((recordsOf suite records).foldl SuiteCount.add (counts[suite]?.getD {})) := by
  induction records generalizing counts with
  | nil => rfl
  | cons record records ih =>
      rw [List.foldl_cons, ih, getElem?_countIn, recordsOf_cons]
      by_cases h : record.suite = suite
      · -- the record is the first one that is left of this suite
        simp only [h, if_true, reduceCtorEq, if_false, Option.getD_some, List.foldl_cons]
        split
        · rename_i hnone
          rw [hnone, List.foldl_nil]
        · rfl
      · simp only [h, if_false]

theorem getElem?_countSuites (records : List Record) (suite : String) :
    (countSuites records)[suite]? =
      if recordsOf suite records = [] then none
      else some ((recordsOf suite records).foldl SuiteCount.add {}) := by
  unfold countSuites
  rw [getElem?_foldl_countIn]
  simp

/-- With the same records of each suite, the pass counts the same. -/
theorem countSuites_congr {other : List Record}
    (h : ∀ suite, recordsOf suite other = recordsOf suite records) :
    countSuites other = countSuites records := by
  refine Std.ExtTreeMap.ext_getElem? fun suite => ?_
  rw [getElem?_countSuites, getElem?_countSuites, h]

/-! ## The suites and their statistics -/

section Lists

variable (origin : Origin) (metrics : Metrics)

theorem perSuite_ofRecords (records : List Record) :
    (ofResults (.ofRecords origin records) metrics).perSuite =
      (countSuites records).toList.map fun (suite, count) => (suite, count.figures) := rfl

theorem suites_eq_keys (records : List Record) :
    (ofResults (.ofRecords origin records) metrics).suites = (countSuites records).keys := by
  unfold suites
  rw [perSuite_ofRecords, List.map_map, ← Std.ExtTreeMap.map_fst_toList_eq_keys]
  rfl

theorem suites_increasing (records : List Record) :
    (ofResults (.ofRecords origin records) metrics).suites.Pairwise (· < ·) := by
  have hlt : ∀ a b : String, compare a b = .lt → a < b := fun a b h =>
    compareOfLessAndEq_eq_lt.mp h
  rw [suites_eq_keys]
  exact Std.ExtTreeMap.ordered_keys.imp fun h => hlt _ _ h

theorem nodup_suites (records : List Record) :
    (ofResults (.ofRecords origin records) metrics).suites.Nodup :=
  (suites_increasing origin metrics records).imp fun h => String.ne_of_lt h

theorem mem_suites_iff {suite : String} :
    suite ∈ (ofResults (.ofRecords origin records) metrics).suites ↔
      suite ∈ records.map Record.suite := by
  rw [suites_eq_keys, Std.ExtTreeMap.mem_keys, Std.ExtTreeMap.mem_iff_isSome_getElem?,
    getElem?_countSuites]
  have hnil := recordsOf_eq_nil_iff suite records
  split
  · rename_i h
    simpa using hnil.mp h
  · rename_i h
    simpa using Classical.not_not.mp (mt hnil.mpr h)

/-- The statistics of a suite are there if the suite occurs, and they are those of its records. -/
theorem mem_perSuite_iff {suite : String} {figures : SuiteFigures} :
    (suite, figures) ∈ (ofResults (.ofRecords origin records) metrics).perSuite ↔
      suite ∈ records.map Record.suite ∧ figures.Describes (recordsOf suite records) := by
  have hdescribes := SuiteCount.describes_figures (recordsOf suite records)
  have hcount : ∀ count, (suite, count) ∈ (countSuites records).toList ↔
      suite ∈ records.map Record.suite ∧
        count = (recordsOf suite records).foldl SuiteCount.add {} := by
    intro count
    rw [Std.ExtTreeMap.mem_toList_iff_getElem?_eq_some, getElem?_countSuites]
    have hnil := recordsOf_eq_nil_iff suite records
    split
    · rename_i h
      simp [hnil.mp h]
    · rename_i h
      simp [Classical.not_not.mp (mt hnil.mpr h), eq_comm]
  rw [perSuite_ofRecords]
  constructor
  · intro hmem
    obtain ⟨⟨s, count⟩, hin, heq⟩ := List.mem_map.mp hmem
    obtain ⟨rfl, rfl⟩ := Prod.mk.inj heq
    obtain ⟨hoccurs, rfl⟩ := (hcount count).mp hin
    exact ⟨hoccurs, hdescribes⟩
  · rintro ⟨hoccurs, hfigures⟩
    refine List.mem_map.mpr ⟨(suite, _), (hcount _).mpr ⟨hoccurs, rfl⟩, ?_⟩
    rw [hfigures.unique hdescribes]

end Lists

/--
**The statistics of each suite are those of the suite alone.** There is one entry for each suite
that occurs and no other one, and its figures are those of the records of that suite, in their
order; its average time is bit for bit the one that a run with only these records has. So the
statistics of the suites do not depend on how the records of different suites are mixed.
-/
theorem perSuite_describes (origin : Origin) (metrics : Metrics) (records : List Record) :
    let s := ofResults (.ofRecords origin records) metrics
    s.suites.Nodup ∧
    (∀ suite, suite ∈ s.suites ↔ suite ∈ records.map Record.suite) ∧
    (∀ suite figures, (suite, figures) ∈ s.perSuite ↔
      suite ∈ records.map Record.suite ∧ figures.Describes (recordsOf suite records)) ∧
    ∀ other, (∀ suite, recordsOf suite other = recordsOf suite records) →
      ∀ otherMetrics, (ofResults (.ofRecords origin other) otherMetrics).perSuite = s.perSuite := by
  intro s
  refine ⟨nodup_suites origin metrics records, fun suite => mem_suites_iff origin metrics,
    fun suite figures => mem_perSuite_iff origin metrics, fun other hsame otherMetrics => ?_⟩
  rw [perSuite_ofRecords, countSuites_congr hsame]
  exact (perSuite_ofRecords origin metrics records).symm

/-- Two records of one suite with another record between them, and the same with it in front. -/
theorem perSuite_describes_interleaved :
    let first := Record.basic "a" "x" 1 0 true
    let second := Record.basic "a" "y" 2 0 false
    let between := Record.basic "b" "x" 3 0 true
    let perSuite (records : List Record) :=
      (ofResults (.ofRecords .current records) .none).perSuite
    perSuite [between, first, second] = perSuite [first, between, second] := by
  intro first second between perSuite
  have hsame : ∀ suite, recordsOf suite [between, first, second] =
      recordsOf suite [first, between, second] := by
    intro suite
    by_cases ha : "a" = suite
    · subst ha
      rfl
    · have hfirst : first.suite ≠ suite := ha
      simp only [recordsOf_cons, hfirst, if_false]
  exact (perSuite_describes .current .none [first, between, second]).2.2.2 _ hsame .none

end Statistics

end BenchGate
