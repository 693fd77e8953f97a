import Mathlib.Algebra.BigOperators.Group.List.Basic
import Mathlib.Algebra.GroupWithZero.Nat
import BenchGate.Proofs.Suites
import BenchGate.Proofs.Text.ByteOrder

/-!
# What the statistics of a run add up to

The statistics of a list of records are taken from three reductions: the metrics, the count of the
failures, and the counts of the suites. They agree on every list. The successes and the failures add
up to the records, and so do the suites; every suite, platform and tool version that occurs is
listed once, in increasing order of the bytes.

What is listed and what is counted does not depend on the order of the records. Only averages do.
-/

namespace BenchGate

/-! ## Lists in increasing order -/

theorem nodup_eraseDups : ∀ texts : List String, texts.eraseDups.Nodup
  | [] => .nil
  | text :: texts => by
      rw [List.eraseDups_cons, List.nodup_cons, List.mem_eraseDups]
      refine ⟨fun h => ?_, nodup_eraseDups _⟩
      simp at h
  termination_by texts => texts.length
  decreasing_by
    exact Nat.lt_succ_of_le (List.length_filter_le _ _)

theorem mem_distinctSorted {text : String} {texts : List String} :
    text ∈ distinctSorted texts ↔ text ∈ texts := by
  unfold distinctSorted
  rw [List.mem_mergeSort, List.mem_eraseDups]

theorem distinctSorted_increasing (texts : List String) :
    (distinctSorted texts).Pairwise (· < ·) := by
  have hsorted : (distinctSorted texts).Pairwise fun s t => decide (s ≤ t) = true := by
    refine List.pairwise_mergeSort (fun a b c hab hbc => ?_) (fun a b => ?_) _
    · exact decide_eq_true (String.le_trans (of_decide_eq_true hab) (of_decide_eq_true hbc))
    · simpa using String.le_total a b
  have hnodup : (distinctSorted texts).Nodup :=
    (List.mergeSort_perm _ _).nodup_iff.mpr (nodup_eraseDups texts)
  -- at most and not the same is below
  refine (hsorted.and hnodup).imp fun {s t} h => ?_
  rcases Decidable.em (s < t) with hlt | hnot
  · exact hlt
  · exact absurd (String.le_antisymm (of_decide_eq_true h.1) (String.not_lt.mp hnot)) h.2

/-- A list that increases is known from its members. -/
theorem eq_of_increasing {texts others : List String} (h : texts.Pairwise (· < ·))
    (hothers : others.Pairwise (· < ·)) (hmem : ∀ text, text ∈ texts ↔ text ∈ others) :
    texts = others := by
  have hperm : texts.Perm others :=
    (List.perm_ext_iff_of_nodup (h.imp fun hlt => String.ne_of_lt hlt)
      (hothers.imp fun hlt => String.ne_of_lt hlt)).mpr hmem
  refine List.Perm.eq_of_pairwise (fun s t _ _ hst hts => ?_) h hothers hperm
  exact absurd (String.lt_trans hst hts) (String.lt_irrefl s)

/-- A list of all texts of one kind, in strictly increasing order of their bytes. -/
structure ListsOnce (texts : List String) (Occurs : String → Prop) : Prop where
  increasing : texts.Pairwise fun s t => bytesOf s < bytesOf t
  complete : ∀ text, text ∈ texts ↔ Occurs text

theorem listsOnce_of_increasing {texts : List String} {Occurs : String → Prop}
    (h : texts.Pairwise (· < ·)) (hmem : ∀ text, text ∈ texts ↔ Occurs text) :
    ListsOnce texts Occurs :=
  ⟨h.imp fun hlt => bytesOf_lt hlt, hmem⟩

namespace Statistics

variable {records other : List Record}

/-! ## The suites share the records out -/

/-- **What is counted suite by suite is what is counted of all records**, if every suite is there
once. -/
theorem sum_countP_recordsOf (p : Record → Bool) {names : List String} (hnodup : names.Nodup)
    (hall : ∀ r ∈ records, r.suite ∈ names) :
    (names.map fun suite => (recordsOf suite records).countP p).sum = records.countP p := by
  induction names generalizing records with
  | nil =>
      cases records with
      | nil => rfl
      | cons r records => exact absurd (hall r List.mem_cons_self) List.not_mem_nil
  | cons name names ih =>
      -- the records of all other suites
      have hnot := (List.nodup_cons.mp hnodup).1
      let rest := records.filter fun r => !decide (r.suite = name)
      have hrest : ∀ r ∈ rest, r.suite ∈ names := by
        intro r hr
        obtain ⟨hmem, hne⟩ := List.mem_filter.mp hr
        rcases List.mem_cons.mp (hall r hmem) with heq | hin
        · simp [heq] at hne
        · exact hin
      have hsame : ∀ suite ∈ names, recordsOf suite rest = recordsOf suite records := by
        intro suite hsuite
        unfold recordsOf
        rw [List.filter_filter]
        refine List.filter_congr fun r _ => ?_
        by_cases hr : r.suite = suite
        · have hne : r.suite ≠ name := fun h => hnot (h ▸ hr ▸ hsuite)
          simp [hr, hr ▸ hne]
        · simp [hr]
      have hcounts : (names.map fun suite => (recordsOf suite records).countP p) =
          names.map fun suite => (recordsOf suite rest).countP p :=
        List.map_congr_left fun suite hsuite => by rw [hsame suite hsuite]
      rw [List.map_cons, List.sum_cons, hcounts, ih (List.nodup_cons.mp hnodup).2 hrest]
      exact (List.countP_eq_countP_filter_add records p fun r => decide (r.suite = name)).symm

section Run

variable (origin : Origin) (metrics : Metrics) (records : List Record)

theorem perSuite_eq_map :
    let s := ofResults (.ofRecords origin records) metrics
    s.perSuite = s.suites.map fun suite =>
      (suite, ((recordsOf suite records).foldl SuiteCount.add {}).figures) := by
  intro s
  have hentry : ∀ entry ∈ s.perSuite,
      entry = (entry.1, ((recordsOf entry.1 records).foldl SuiteCount.add {}).figures) := by
    rintro ⟨suite, figures⟩ hmem
    have hdescribes := ((mem_perSuite_iff origin metrics).mp hmem).2
    rw [hdescribes.unique (SuiteCount.describes_figures _)]
  unfold suites
  rw [List.map_map]
  exact (List.map_id _).symm.trans (List.map_congr_left hentry)

/-- The totals and the successes of the suites are those of the run. -/
theorem sum_perSuite :
    let s := ofResults (.ofRecords origin records) metrics
    (s.perSuite.map fun entry => entry.2.total).sum = records.length ∧
      (s.perSuite.map fun entry => entry.2.successful).sum = records.countP Record.success := by
  intro s
  have hall : ∀ r ∈ records, r.suite ∈ s.suites := fun r hr =>
    (mem_suites_iff origin metrics).mpr (List.mem_map_of_mem hr)
  have hnodup : s.suites.Nodup := nodup_suites origin metrics records
  have hdescribes : ∀ suite,
      ((recordsOf suite records).foldl SuiteCount.add {}).figures.Describes
        (recordsOf suite records) := fun suite => SuiteCount.describes_figures _
  have htotals := sum_countP_recordsOf (fun _ => true) hnodup hall
  have hsuccesses := sum_countP_recordsOf Record.success hnodup hall
  rw [List.countP_true] at htotals
  rw [perSuite_eq_map, List.map_map, List.map_map, ← htotals, ← hsuccesses]
  constructor
  · exact congrArg List.sum (List.map_congr_left fun suite _ => (hdescribes suite).total)
  · exact congrArg List.sum (List.map_congr_left fun suite _ => (hdescribes suite).successful)

/-- What occurs in a field of the records, unless it is empty. -/
theorem listsOnce_values (field : Record → String) :
    ListsOnce (distinctSorted ((records.map field).filter (· ≠ "")))
      fun text => text ≠ "" ∧ text ∈ records.map field := by
  refine listsOnce_of_increasing (distinctSorted_increasing _) fun text => ?_
  rw [mem_distinctSorted, List.mem_filter, decide_eq_true_eq]
  exact and_comm

end Run

/-! ## The order of the records -/

/-- Statistics without their averages. -/
def withoutAverages (s : Statistics) : Statistics :=
  { s with
    averageTime := 0
    averageMemory := 0
    perSuite := s.perSuite.map fun (suite, figures) =>
      (suite, { figures with averageTime := 0 }) }

theorem distinctSorted_perm {texts others : List String} (h : texts.Perm others) :
    distinctSorted texts = distinctSorted others := by
  refine eq_of_increasing (distinctSorted_increasing _) (distinctSorted_increasing _) fun text => ?_
  rw [mem_distinctSorted, mem_distinctSorted]
  exact h.mem_iff

theorem suites_perm (origin : Origin) (metrics otherMetrics : Metrics) (h : other.Perm records) :
    (ofResults (.ofRecords origin other) otherMetrics).suites =
      (ofResults (.ofRecords origin records) metrics).suites := by
  refine eq_of_increasing (suites_increasing _ _ _) (suites_increasing _ _ _) fun suite => ?_
  rw [mem_suites_iff, mem_suites_iff]
  exact (h.map Record.suite).mem_iff

/-- Figures depend on the order of the records in their average only. -/
theorem figures_perm (h : other.Perm records) :
    { (other.foldl SuiteCount.add {}).figures with averageTime := 0 } =
      { (records.foldl SuiteCount.add {}).figures with averageTime := 0 } := by
  obtain ⟨htotal, hsuccessful, hrate, -⟩ := SuiteCount.describes_figures records
  obtain ⟨htotal', hsuccessful', hrate', -⟩ := SuiteCount.describes_figures other
  dsimp only
  rw [htotal, hsuccessful, hrate, htotal', hsuccessful', hrate', h.length_eq,
    h.countP_eq Record.success]

theorem perSuite_perm (origin : Origin) (metrics otherMetrics : Metrics)
    (h : other.Perm records) :
    (ofResults (.ofRecords origin other) otherMetrics).withoutAverages.perSuite =
      (ofResults (.ofRecords origin records) metrics).withoutAverages.perSuite := by
  unfold withoutAverages
  dsimp only
  rw [perSuite_eq_map, perSuite_eq_map, suites_perm origin metrics otherMetrics h, List.map_map,
    List.map_map]
  refine List.map_congr_left fun suite _ => ?_
  have hrecords : (recordsOf suite other).Perm (recordsOf suite records) := h.filter _
  exact congrArg (Prod.mk suite) (figures_perm hrecords)

/-! ## The statistics of records -/

/-- The statistics of records and of the metrics that are taken from them. -/
def ofRecords (origin : Origin) (records : List Record) : Statistics :=
  ofResults (.ofRecords origin records) (.ofResults (.ofRecords origin records))

/-- **Only averages depend on the order of the records.** -/
theorem withoutAverages_perm (origin : Origin) (h : other.Perm records) :
    (ofRecords origin other).withoutAverages = (ofRecords origin records).withoutAverages := by
  have htotal : (Metrics.ofResults (.ofRecords origin other)).total =
      (Metrics.ofResults (.ofRecords origin records)).total := by
    rw [Metrics.ofResults_total, Metrics.ofResults_total]
    exact h.length_eq
  have hfailed : (Results.ofRecords origin other).failed =
      (Results.ofRecords origin records).failed := h.countP_eq _
  have hsuccessful : (ofRecords origin other).successful = (ofRecords origin records).successful :=
    congrArg₂ (· - ·) htotal hfailed
  have hvalues : ∀ field : Record → String,
      distinctSorted ((other.map field).filter (· ≠ "")) =
        distinctSorted ((records.map field).filter (· ≠ "")) :=
    fun field => distinctSorted_perm ((h.map field).filter _)
  unfold withoutAverages
  rw [mk.injEq]
  refine ⟨htotal, hsuccessful, hfailed, ?_, rfl, rfl, hvalues _, hvalues _, ?_⟩
  · exact congrArg₂ Binary64.share hsuccessful htotal
  · exact perSuite_perm origin _ _ h

/--
**Statistics share the records out.** There are never more failures than benchmarks, so that taking
the ones from the others leaves the successes; the suites share out benchmarks and successes; and
what is listed is what occurs, once each, in the order of the bytes. An empty name is a suite, but
neither a platform nor a tool version. In another order, the same records have the same statistics
but for the averages.
-/
theorem ofRecords_sharesOut (origin : Origin) (records : List Record) :
    let s := ofRecords origin records
    let m := Metrics.ofResults (.ofRecords origin records)
    ((Results.ofRecords origin records).failed ≤ m.total ∧ s.total = records.length ∧
      s.total = s.successful + s.failed ∧ s.successful = m.successful) ∧
    ((s.perSuite.map fun entry => entry.2.total).sum = s.total ∧
      (s.perSuite.map fun entry => entry.2.successful).sum = s.successful) ∧
    (ListsOnce s.suites (· ∈ records.map Record.suite) ∧
      ListsOnce s.platforms (fun text => text ≠ "" ∧ text ∈ records.map Record.platform) ∧
      ListsOnce s.toolVersions
        fun text => text ≠ "" ∧ text ∈ records.map Record.toolVersion) ∧
    ∀ other, other.Perm records →
      (ofRecords origin other).withoutAverages = s.withoutAverages := by
  intro s m
  have htotal : m.total = records.length := Metrics.ofRecords_total records
  have hsum : m.successful + (Results.ofRecords origin records).failed = records.length :=
    Metrics.successful_add_failed records
  have hsuccessful : s.successful = m.successful := by
    have hrest : s.successful = m.total - (Results.ofRecords origin records).failed := rfl
    omega
  have hfailed : s.failed = (Results.ofRecords origin records).failed := rfl
  have hstotal : s.total = m.total := rfl
  have hcount : m.successful = records.countP Record.success :=
    Metrics.ofRecords_successful records
  obtain ⟨htotals, hsuccesses⟩ := sum_perSuite origin m records
  refine ⟨⟨by omega, by omega, by omega, hsuccessful⟩, ⟨?_, ?_⟩, ⟨?_, ?_, ?_⟩,
    fun other hother => ?_⟩
  · rw [hstotal, htotal]
    exact htotals
  · rw [hsuccessful, hcount]
    exact hsuccesses
  · exact listsOnce_of_increasing (suites_increasing origin m records)
      fun suite => mem_suites_iff origin m
  · exact listsOnce_values records Record.platform
  · exact listsOnce_values records Record.toolVersion
  · exact withoutAverages_perm origin hother

/-- A success before a failure of another suite, and the other way round. -/
theorem ofRecords_sharesOut_swapped :
    let first := Record.basic "a" "x" 1 0 true
    let second := Record.basic "b" "y" 2 0 false
    [second, first].Perm [first, second] ∧
      (ofRecords .current [second, first]).withoutAverages =
        (ofRecords .current [first, second]).withoutAverages := by
  intro first second
  have hperm : [second, first].Perm [first, second] := .swap first second []
  exact ⟨hperm, (ofRecords_sharesOut .current [first, second]).2.2.2 _ hperm⟩

end Statistics

end BenchGate
