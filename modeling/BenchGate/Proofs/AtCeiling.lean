import Mathlib.Algebra.BigOperators.Ring.List
import Mathlib.Algebra.Order.BigOperators.Group.List
import BenchGate.Proofs.Binary64.Means
import BenchGate.Proofs.Increases
import BenchGate.Proofs.Verdict

/-!
# Runs at their ceilings

The gate compares computed averages with the ceilings, and what a run has really used is another
number. How far the two can be apart is different for each of the three measures:

* times are added from left to right, each addition with a rounding of its own, and the sum can
  overflow. So a run can be blamed for its time although no benchmark in it was above the ceiling.
  It takes a ceiling whose multiples have to be rounded: with one of whole milliseconds nothing of
  the kind happens;
* bytes are counts, which add up without rounding, and a megabyte is a power of two. The average
  memory is rounded once, so it is never above the largest number averaged;
* the failure rate is rounded once too, and so is its ceiling. Rounding keeps the order, so a share
  that is above the ceiling as a number is above what the ceiling was rounded from.
-/

namespace BenchGate

open Binary64

attribute [local irreducible] unitsInOne unitsAtTop Binary64.gapBelowOne

/-! ## What a run is blamed for -/

/-- What the gate holds against a ceiling. -/
inductive Measure where
  | time
  | memory
  | failureRate
  deriving DecidableEq

/-- The measure that a reason is about; a regression is about none. -/
def Reason.measure? : Reason → Option Measure
  | tooSlow _ _ => some .time
  | tooMuchMemory _ _ => some .memory
  | tooManyFailures _ _ => some .failureRate
  | regression => none

/-- Whether a measure is among the reasons for which a run is rejected. -/
def GateVerdict.Blames (d : GateVerdict) (measure : Measure) : Prop :=
  ∃ r ∈ d.reasons, r.measure? = some measure

instance (d : GateVerdict) (measure : Measure) : Decidable (d.Blames measure) :=
  inferInstanceAs (Decidable (∃ r ∈ d.reasons, r.measure? = some measure))

/-- Whether a measure of a run is above its ceiling. -/
def Metrics.Exceeds (m : Metrics) (ceilings : Ceilings) : Measure → Prop
  | .time => ceilings.time < m.averageTime
  | .memory => ceilings.memory < m.averageMemory
  | .failureRate => 0 < m.total ∧ ceilings.failureRate < m.failureRate

instance (m : Metrics) (ceilings : Ceilings) :
    (measure : Measure) → Decidable (m.Exceeds ceilings measure)
  | .time => inferInstanceAs (Decidable (ceilings.time < m.averageTime))
  | .memory => inferInstanceAs (Decidable (ceilings.memory < m.averageMemory))
  | .failureRate =>
    inferInstanceAs (Decidable (0 < m.total ∧ ceilings.failureRate < m.failureRate))

/-- **A run is blamed for exactly the measures that exceed their ceilings.** -/
theorem GateVerdict.blames_iff (m : Metrics) (detected : Bool) (ceilings : Ceilings)
    (measure : Measure) :
    (ofMetrics m detected ceilings).Blames measure ↔ m.Exceeds ceilings measure := by
  unfold Blames ofMetrics
  cases measure <;> simp [Reason.measure?, Metrics.Exceeds, or_and_right, exists_or]

/-! ## Averages of the successes -/

/-- The times of the successful records. -/
def successTimes (records : List Record) : List Binary64 :=
  (records.filter Record.success).map Record.executionTime

/-- The bytes that the successful records used. -/
def successBytes (records : List Record) : List Nat :=
  (records.filter Record.success).map Record.memoryUsage

theorem filter_success_ne_nil {records : List Record} (h : ∃ r ∈ records, r.success = true) :
    records.filter Record.success ≠ [] := by
  obtain ⟨r, hr, hsuccess⟩ := h
  exact List.ne_nil_of_mem (List.mem_filter.mpr ⟨hr, hsuccess⟩)

/-! ## Time -/

theorem length_successTimes_le (records : List Record) :
    (successTimes records).length ≤ records.length := by
  unfold successTimes
  rw [List.length_map]
  exact List.length_filter_le _ _

theorem successTimes_nonneg (elements : List Json) :
    ∀ x ∈ successTimes (elements.map Record.ofJson), 0 ≤ x := by
  intro x hx
  obtain ⟨r, hr, rfl⟩ := List.mem_map.mp hx
  obtain ⟨e, -, rfl⟩ := List.mem_map.mp (List.mem_filter.mp hr).1
  exact Record.ofJson_executionTime_nonneg e

/-- How blaming a run for its average and the exact values averaged stand to each other. -/
structure JudgesAverage (values : List Binary64) (ceiling : Binary64) (blamed : Prop) : Prop where
  /-- The exact sum of a run that is blamed, with a rounding on top for each addition after the
  first, is above the multiple of the ceiling, or too large for a number. -/
  of_blamed : blamed →
    let rounded := (values.map toRat).sum * (1 + roundoff) ^ (values.length - 1)
    ceiling.toRat * values.length < rounded ∨ 2 ^ 1024 ≤ rounded
  /-- A run that is not blamed is hardly above, unless the ceiling is next to nothing. -/
  of_not_blamed : ¬ blamed → roundoff ≤ ceiling.toRat →
    (values.map toRat).sum ≤ ceiling.toRat * values.length * (1 + roundoff) ^ values.length
  /-- With a ceiling whose multiples are numbers, no run is blamed that has nothing above it. -/
  of_multiples : HasMultiples ceiling values.length → (∀ x ∈ values, x ≤ ceiling) → ¬ blamed
  /-- Whole numbers are such ceilings. -/
  of_whole : ∀ k, ceiling = ofNat k → values.length * k ≤ 2 ^ 53 → (∀ x ∈ values, x ≤ ceiling) →
    ¬ blamed
  /-- Of whole numbers that add up to 53 bits, blaming is right. -/
  of_counts : ∀ counts : List Nat, values = counts.map ofNat → counts.sum ≤ 2 ^ 53 → blamed →
    ceiling.toRat * values.length < counts.sum

theorem judgesAverage {values : List Binary64} (hne : values ≠ []) (hvalues : ∀ x ∈ values, 0 ≤ x)
    (hlen : values.length ≤ 2 ^ 53) {ceiling : Binary64} (hc : IsAmount ceiling) :
    JudgesAverage values ceiling (ceiling < mean values) := by
  have hmultiples (h : HasMultiples ceiling values.length) (hle : ∀ x ∈ values, x ≤ ceiling) :
      ¬ ceiling < mean values := by
    have hmean := mean_le h hne hvalues hle hc.1 hlen (Nat.le_refl _)
    exact (not_lt_iff hc.ne_nan hmean.1).mpr hmean
  refine ⟨fun h => ?_, fun h hc1 => ?_, hmultiples, ?_, ?_⟩
  · have hup := (sum_relative hvalues).1
    rcases lt_sum_of_lt_mean hne hvalues hlen hc.1 h with hlt | hinf
    · exact .inl (lt_of_lt_of_le hlt hup)
    · rw [hinf, toRat_infinity] at hup
      exact .inr hup
  · obtain ⟨hfin, hle⟩ := sum_le_of_not_lt_mean hne hvalues hlen hc.1 h
    have hlast := hle hc1
    have hu := roundoff_pos
    calc (values.map toRat).sum
        ≤ (sum values).toRat * (1 + roundoff) ^ (values.length - 1) := (sum_relative hvalues).2 hfin
      _ ≤ ceiling.toRat * values.length * (1 + roundoff) *
            (1 + roundoff) ^ (values.length - 1) := by gcongr
      _ = ceiling.toRat * values.length * (1 + roundoff) ^ values.length := by
          rw [mul_assoc, ← pow_succ', Nat.sub_add_cancel (List.length_pos_iff.mpr hne)]
  · rintro k rfl hk
    exact hmultiples (hasMultiples_ofNat hk)
  · rintro counts rfl hsum h
    have hcne : counts ≠ [] := mt (congrArg (List.map ofNat)) hne
    rw [List.length_map] at hlen ⊢
    have hpos := List.length_pos_iff.mpr hcne
    rw [mean_ofNat hcne hsum hlen] at h
    have hlt := (rounds_nearest counts.sum hpos).lt_of_toRat_lt hc.1 h
    exact (lt_div_iff₀ (Nat.cast_pos.mpr hpos)).mp hlt

/--
**Blaming a run for its time judges the exact average**, up to one rounding for each addition. Under
a ceiling of whole milliseconds, and for times in whole milliseconds, it is right.
-/
theorem GateVerdict.ofMetrics_judgesTime {elements : List Json} (hlen : elements.length ≤ 2 ^ 53)
    (hsome : ∃ e ∈ elements, (Record.ofJson e).success = true) {t : Thresholds}
    (ht : t.verify = .ok ()) (detected : Bool) :
    JudgesAverage (successTimes (elements.map Record.ofJson)) t.gate.time
      ((ofMetrics (.ofDocument .current (.array elements)) detected t.gate).Blames .time) := by
  have hrecords : ∃ r ∈ elements.map Record.ofJson, r.success = true := by
    obtain ⟨e, he, hsuccess⟩ := hsome
    exact ⟨_, List.mem_map_of_mem he, hsuccess⟩
  have hne : successTimes (elements.map Record.ofJson) ≠ [] :=
    mt List.map_eq_nil_iff.mp (filter_success_ne_nil hrecords)
  have hshort : (successTimes (elements.map Record.ofJson)).length ≤ 2 ^ 53 :=
    Nat.le_trans (length_successTimes_le _) (by rwa [List.length_map])
  have hjudged := judgesAverage hne (successTimes_nonneg elements) hshort
    (Thresholds.inRange_of_verify ht).timeCeiling
  rw [successTimes, ← Metrics.ofRecords_averageTime] at hjudged
  rw [blames_iff]
  exact hjudged

/-- A record of a success and a time. -/
def Json.timed (time : JsonNumber) : Json :=
  .object [("success", .bool true), ("metrics", .object [("executionTime", .number time)])]

/-- A benchmark above a second is not blamed in a run of a second on average. -/
theorem GateVerdict.ofMetrics_judgesTime_standard :
    let elements := [Json.timed (.natural 998), .timed (.natural 999), .timed (.natural 1003)]
    ¬ (ofMetrics (.ofDocument .current (.array elements)) false .standard).Blames .time := by
  intro elements hblamed
  have hlen : elements.length ≤ 2 ^ 53 := by decide
  have hjudged := ofMetrics_judgesTime hlen ⟨_, List.mem_cons_self, rfl⟩
    Thresholds.standard_verify false
  have htimes : successTimes (elements.map Record.ofJson) = [998, 999, 1003].map ofNat := by
    decide +kernel
  have hlt := hjudged.of_counts _ htimes (by decide) hblamed
  rw [htimes] at hlt
  change (ofNat 1000).toRat * (3 : Nat) < (3000 : Nat) at hlt
  rw [toRat_ofNat (by decide)] at hlt
  norm_num at hlt

/-- Three times a tenth of a millisecond is blamed where the ceiling is just that. -/
theorem GateVerdict.ofMetrics_threeTenths :
    let tenth := Binary64.nearest false 1 10
    let t := { Thresholds.standard with gate := { Ceilings.standard with time := tenth } }
    let elements := List.replicate 3 (Json.timed (.binary tenth))
    t.verify = .ok () ∧
      (∀ e ∈ elements, (Record.ofJson e).success = true ∧
        (Record.ofJson e).executionTime ≤ t.gate.time) ∧
      (ofMetrics (.ofDocument .current (.array elements)) false t.gate).Blames .time :=
  ⟨by decide +kernel, by decide +kernel, (blames_iff _ _ _ _).mpr (by decide +kernel)⟩

/-! ## Memory -/

/-- The average memory of the successes in megabytes, without rounding. -/
def exactAverageMemory (records : List Record) : ℚ :=
  (successBytes records).sum / records.countP Record.success / 2 ^ 20

/-- What there is to say about an average memory that is rounded once. -/
structure IsAverageMemory (records : List Record) (average : Binary64) : Prop where
  eq_nearest : average =
    nearest false (successBytes records).sum (records.countP Record.success * 2 ^ 20)
  /-- It is what the exact average is rounded to. -/
  rounds : Rounds (exactAverageMemory records) average
  finite : average.isFinite = true
  /-- No number is nearer to the exact average. -/
  closest : ∀ y : Binary64, y.isFinite = true →
    |average.toRat - exactAverageMemory records| ≤ |y.toRat - exactAverageMemory records|
  /-- It is the rounded average of the bytes, divided without rounding. -/
  scaled : average.toRat =
    (nearest false (successBytes records).sum (records.countP Record.success)).toRat / 2 ^ 20

section Memory

variable {records : List Record}

theorem length_successBytes (records : List Record) :
    (successBytes records).length = records.countP Record.success := by
  unfold successBytes
  rw [List.length_map, List.countP_eq_length_filter]

variable (hlen : records.length < 2 ^ 53) (hsome : ∃ r ∈ records, r.success = true)
  (hbytes : (successBytes records).sum ≤ 2 ^ 53)

include hlen hsome in
theorem countP_success_bounds :
    0 < records.countP Record.success ∧ records.countP Record.success ≤ 2 ^ 53 :=
  ⟨List.countP_pos_iff.mpr hsome, Nat.le_of_lt (Nat.lt_of_le_of_lt List.countP_le_length hlen)⟩

include hsome in
/-- Some success used at least as much as the average. -/
theorem exists_success_sum_le :
    ∃ r ∈ records, r.success = true ∧
      (successBytes records).sum ≤ r.memoryUsage * records.countP Record.success := by
  have hsum : (((records.filter Record.success).map fun _ => (successBytes records).sum).sum ≤
      ((records.filter Record.success).map fun r =>
        r.memoryUsage * records.countP Record.success).sum) := by
    rw [List.sum_map_mul_right, List.map_const', List.sum_replicate_nat,
      ← List.countP_eq_length_filter, Nat.mul_comm]
    exact Nat.le_refl _
  obtain ⟨r, hr, hle⟩ := List.exists_le_of_sum_le (filter_success_ne_nil hsome) _ _ hsum
  obtain ⟨hmem, hsuccess⟩ := List.mem_filter.mp hr
  exact ⟨r, hmem, hsuccess, hle⟩

include hlen hsome hbytes

/-- **The average memory is rounded once.** -/
theorem Metrics.ofRecords_averageMemory_eq :
    (ofRecords records).averageMemory =
      nearest false (successBytes records).sum (records.countP Record.success * 2 ^ 20) := by
  obtain ⟨hpos, hcount⟩ := countP_success_bounds hlen hsome
  have hne : successBytes records ≠ [] := mt List.map_eq_nil_iff.mp (filter_success_ne_nil hsome)
  have hmean := ofRecords_averageMemory records
  rw [← length_successBytes] at hpos hcount ⊢
  rw [← Function.comp_def, ← List.map_map] at hmean
  rw [hmean, ← successBytes, mean_ofNat hne hbytes hcount]
  exact (nearest_div_pow (k := 20) hpos hbytes hcount (by decide)).1

theorem Metrics.ofRecords_isAverageMemory :
    IsAverageMemory records (ofRecords records).averageMemory := by
  obtain ⟨hpos, hcount⟩ := countP_success_bounds hlen hsome
  have heq := ofRecords_averageMemory_eq hlen hsome hbytes
  obtain ⟨hquotient, hscaled⟩ := nearest_div_pow (k := 20) hpos hbytes hcount (by decide)
  have hrounds : Rounds (exactAverageMemory records) (ofRecords records).averageMemory := by
    have hnearest := rounds_nearest (successBytes records).sum
      (Nat.mul_pos hpos (Nat.two_pow_pos 20))
    rw [heq]
    unfold exactAverageMemory
    rw [div_div]
    exact_mod_cast hnearest
  have hexact : 0 ≤ exactAverageMemory records := by
    unfold exactAverageMemory
    positivity
  have hfinite : (ofRecords records).averageMemory.isFinite = true := by
    rw [heq, ← hquotient]
    exact isFinite_div (isFinite_nearest hpos hbytes hcount)
      ((rounds_nearest _ hpos).nonneg (by positivity)) bytesPerMegabyte_finite
      one_le_bytesPerMegabyte
  refine ⟨heq, hrounds, hfinite, fun y hy => hrounds.closest hexact hfinite hy, ?_⟩
  rw [heq]
  exact hscaled

/-- The order of the records does not matter. -/
theorem Metrics.ofRecords_averageMemory_perm {reordered : List Record}
    (h : reordered.Perm records) :
    (ofRecords reordered).averageMemory = (ofRecords records).averageMemory := by
  have hsum : (successBytes reordered).sum = (successBytes records).sum :=
    ((h.filter Record.success).map Record.memoryUsage).sum_eq
  obtain ⟨r, hr, hsuccess⟩ := hsome
  rw [ofRecords_averageMemory_eq hlen ⟨r, hr, hsuccess⟩ hbytes,
    ofRecords_averageMemory_eq (by rwa [h.length_eq]) ⟨r, h.mem_iff.mpr hr, hsuccess⟩
      (by rwa [hsum]), hsum, h.countP_eq]

/-- **Some success is at least as high as the average**, also after rounding. -/
theorem Metrics.ofRecords_averageMemory_le :
    ∃ r ∈ records, r.success = true ∧ (ofRecords records).averageMemory ≤ r.memoryMegabytes := by
  obtain ⟨hpos, -⟩ := countP_success_bounds hlen hsome
  obtain ⟨r, hr, hsuccess, hle⟩ := exists_success_sum_le hsome
  refine ⟨r, hr, hsuccess, (ofRecords_isAverageMemory hlen hsome hbytes).rounds.mono
    (w := r.memoryUsage / 2 ^ 20) ?_ ?_⟩
  · have husage : r.memoryUsage ≤ 2 ^ 53 :=
      Nat.le_trans (List.single_le_sum (fun _ _ => Nat.zero_le _) _
        (List.mem_map_of_mem (List.mem_filter.mpr ⟨hr, hsuccess⟩))) hbytes
    have hnearest := rounds_nearest r.memoryUsage (Nat.two_pow_pos 20)
    rw [← ofNat_div_ofNat (Nat.two_pow_pos 20) husage (by decide)] at hnearest
    exact_mod_cast hnearest
  · unfold exactAverageMemory
    have hcount : (0 : ℚ) < records.countP Record.success := Nat.cast_pos.mpr hpos
    gcongr
    rw [div_le_iff₀ hcount]
    exact_mod_cast hle

/--
**The average memory has one rounding.** It is the number nearest to the exact average, whatever the
order of the records is, and a run is blamed for it only if one of its successes is above the
ceiling.
-/
theorem Metrics.ofRecords_averageMemory_exact :
    IsAverageMemory records (ofRecords records).averageMemory ∧
      (∀ reordered : List Record, reordered.Perm records →
        (ofRecords reordered).averageMemory = (ofRecords records).averageMemory) ∧
      ∀ (ceilings : Ceilings) (detected : Bool),
        (∀ r ∈ records, r.success = true → r.memoryMegabytes ≤ ceilings.memory) →
          ¬ (GateVerdict.ofMetrics (ofRecords records) detected ceilings).Blames .memory := by
  refine ⟨ofRecords_isAverageMemory hlen hsome hbytes,
    fun reordered h => ofRecords_averageMemory_perm hlen hsome hbytes h,
    fun ceilings detected hceiling => ?_⟩
  obtain ⟨r, hr, hsuccess, hle⟩ := ofRecords_averageMemory_le hlen hsome hbytes
  have hbound := le_trans hle (hceiling r hr hsuccess)
  rw [GateVerdict.blames_iff]
  exact (not_lt_iff hbound.2.1 hbound.1).mpr hbound

end Memory

/-- Three successes with a fraction of a byte on average, under a ceiling of the largest. -/
theorem Metrics.ofRecords_averageMemory_exact_uneven :
    let records : List Record := [1048577, 1048578, 1048580].map (.basic "suite" "name" 1 · true)
    let ceilings := { Ceilings.standard with memory := .nearest false 1048580 1048576 }
    (ofRecords records.reverse).averageMemory = (ofRecords records).averageMemory ∧
      ¬ (GateVerdict.ofMetrics (ofRecords records) false ceilings).Blames .memory := by
  intro records ceilings
  have hlen : records.length < 2 ^ 53 := by decide
  obtain ⟨-, hperm, hgate⟩ :=
    ofRecords_averageMemory_exact hlen ⟨_, List.mem_cons_self, rfl⟩ (by decide)
  exact ⟨hperm _ (List.reverse_perm records), hgate ceilings false (by decide +kernel)⟩

/-! ## Failures -/

/-- How blaming a run for its failures and the exact share of them stand to each other. -/
structure JudgesFailures (records : List Record) (ceiling : Binary64) (blamed : Prop) : Prop where
  /-- The share of a run that is blamed is above everything that the ceiling can stand for. -/
  of_blamed : ∀ q : ℚ, Rounds q ceiling → blamed → q < failedShare records
  /-- The share of a run that is not blamed is hardly above. -/
  of_not_blamed : ∀ q : ℚ, 0 ≤ q → q ≤ 1 → Rounds q ceiling → ¬ blamed →
    failedShare records ≤ q + roundoff
  /-- With a ceiling of zero, of either sign, a run is blamed exactly for any failure. -/
  of_zero : ceiling.SameValue 0 → (blamed ↔ ∃ r ∈ records, r.success = false)

theorem Metrics.exceeds_failureRate_iff {records : List Record} (ceilings : Ceilings) :
    (ofRecords records).Exceeds ceilings .failureRate ↔
      records ≠ [] ∧ ceilings.failureRate < (ofRecords records).failureRate := by
  unfold Exceeds
  rw [ofRecords_total, List.length_pos_iff]

/-- **Blaming a run for its failures judges the exact share**, and is never too strict. -/
theorem GateVerdict.ofMetrics_judgesFailures {records : List Record}
    (hlen : records.length ≤ 2 ^ 53) (ceilings : Ceilings) (detected : Bool) :
    JudgesFailures records ceilings.failureRate
      ((ofMetrics (.ofRecords records) detected ceilings).Blames .failureRate) := by
  rw [blames_iff, Metrics.exceeds_failureRate_iff]
  constructor
  · rintro q hq ⟨h0, hlt⟩
    exact hq.lt_of_lt (roundsShare_failureRate h0 hlen).rounds hlt
  · intro q hq0 hq1 hq hquiet
    by_cases h0 : records = []
    · have hu := roundoff_pos
      rw [h0, failedShare_eq_zero fun r hr => absurd hr List.not_mem_nil]
      positivity
    · exact (roundsShare_failureRate h0 hlen).le_add_of_not_lt ⟨hq, hq0, hq1⟩
        fun hlt => hquiet ⟨h0, hlt⟩
  · intro hzero
    have hfailures := Metrics.ofRecords_hasFailures_iff hlen
    unfold Metrics.HasFailures at hfailures
    rw [hzero.lt_iff, hfailures]
    constructor
    · rintro ⟨h0, hnot⟩
      by_contra hnone
      refine hnot ⟨h0, fun r hr => ?_⟩
      exact Bool.eq_true_of_not_eq_false fun hfailed => hnone ⟨r, hr, hfailed⟩
    · rintro ⟨r, hr, hfailed⟩
      refine ⟨List.ne_nil_of_mem hr, fun hall => ?_⟩
      exact Bool.false_ne_true (hfailed.symm.trans (hall.2 r hr))

/-- One failure in three is no reason under a third, and it is one under no failures at all. -/
theorem GateVerdict.ofMetrics_judgesFailures_third :
    let m := Metrics.ofRecords (Regression.mixedRecords 2 1)
    let third := { Ceilings.standard with failureRate := .nearest false 1 3 }
    ¬ (ofMetrics m false third).Blames .failureRate ∧
      (ofMetrics m false .standard).Blames .failureRate := by
  intro m third
  have hlen : (Regression.mixedRecords 2 1).length ≤ 2 ^ 53 := by decide
  have hthird := ofMetrics_judgesFailures hlen third false
  have hnone := ofMetrics_judgesFailures hlen .standard false
  constructor
  · intro hblamed
    have hlt := hthird.of_blamed _ (rounds_nearest 1 (d := 3) (by decide)) hblamed
    rw [Regression.failedShare_mixedRecords] at hlt
    norm_num at hlt
  · exact (hnone.of_zero ⟨by decide +kernel, by decide +kernel⟩).mpr (by decide)

end BenchGate
