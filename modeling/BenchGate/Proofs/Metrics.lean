import BenchGate.Metrics
import BenchGate.Proofs.Json.Fits

/-!
# Where metrics lie

Whatever value results are read from, their metrics are in range: no average is negative or `nan`,
the average memory is finite, the failure rate is a share, and no more benchmarks succeeded than
there are. Only the average time can be infinite, when the times of a list of records add up past
the largest finite number.

The failure rate is reached by different formulas, but it is always the one that totals with the
same counts would have.
-/

namespace BenchGate

open Binary64

attribute [local irreducible] unitsInOne unitsAtTop

/-! ## Records -/

namespace Record

theorem ofJson_executionTime_nonneg (v : Json) : 0 ≤ (ofJson v).executionTime :=
  (Json.toMeasure_bounds _).2

theorem ofJson_memoryUsage_lt {v : Json} (h : v.Fits) : (ofJson v).memoryUsage < 2 ^ 64 := by
  refine Json.toCount_lt fun w hw => ?_
  obtain ⟨measurements, hm, hget⟩ := Option.bind_eq_some_iff.mp hw
  exact (h.get? hm).get? hget

end Record

/-! ## Metrics -/

/-- The ranges in which metrics lie. -/
structure Metrics.InRange (m : Metrics) : Prop where
  time_nonneg : 0 ≤ m.averageTime
  memory_nonneg : 0 ≤ m.averageMemory
  memory_finite : m.averageMemory.isFinite = true
  /-- The failure rate is a share. -/
  rate_nonneg : 0 ≤ m.failureRate
  rate_le_one : m.failureRate ≤ 1
  successful_le : m.successful ≤ m.total

namespace Metrics

/-- Making metrics confines the share and the counts; the averages have to be in range. -/
theorem make_inRange {time memory rate : Binary64} {successful total : Nat} (ht : 0 ≤ time)
    (hm : 0 ≤ memory) (hfin : memory.isFinite = true) :
    (make time memory rate successful total).InRange where
  time_nonneg := ht
  memory_nonneg := hm
  memory_finite := hfin
  rate_nonneg := (clampToShare_bounds rate).1
  rate_le_one := (clampToShare_bounds rate).2
  successful_le := Nat.min_le_right _ _

theorem allFailed_inRange (total : Nat) : (allFailed total).InRange :=
  make_inRange (ofNat_nonneg 0) (ofNat_nonneg 0) isFinite_zero

theorem ofTotals_inRange (v : Json) : (ofTotals (Totals.ofJson v)).InRange :=
  make_inRange (Json.toMeasure_bounds _).2 (Json.toMeasure_bounds _).2 (Json.toMeasure_bounds _).1

theorem bytesPerMegabyte_finite : bytesPerMegabyte.isFinite = true := isFinite_ofNat (by decide)

theorem one_le_bytesPerMegabyte : 1 ≤ bytesPerMegabyte := one_le_ofNat (by decide)

theorem ofRecords_inRange {records : List Record} (hlen : records.length < 2 ^ 64)
    (htime : ∀ r ∈ records, 0 ≤ r.executionTime) (hmem : ∀ r ∈ records, r.memoryUsage < 2 ^ 64) :
    (ofRecords records).InRange := by
  unfold ofRecords
  dsimp only
  split
  · exact allFailed_inRange _
  · have hle : (records.filter Record.success).length ≤ 2 ^ 64 :=
      Nat.le_trans (List.length_filter_le _ _) (Nat.le_of_lt hlen)
    -- a sum of counts stays finite, which is not so for the times
    have hsum : (mean ((records.filter Record.success).map fun r =>
        ofNat r.memoryUsage)).isFinite = true := by
      have h := isFinite_mean_ofNat ((records.filter Record.success).map Record.memoryUsage)
        (fun n hn => by
          obtain ⟨r, hr, rfl⟩ := List.mem_map.mp hn
          exact Nat.le_of_lt (hmem r (List.mem_filter.mp hr).1)) (by rwa [List.length_map])
      rwa [List.map_map] at h
    have hnonneg : 0 ≤ mean ((records.filter Record.success).map fun r => ofNat r.memoryUsage) :=
      mean_nonneg (fun x hx => by
        obtain ⟨r, -, rfl⟩ := List.mem_map.mp hx
        exact ofNat_nonneg _) (by rwa [List.length_map])
    refine make_inRange (mean_nonneg (fun x hx => ?_) (by rwa [List.length_map]))
      (div_nonneg hnonneg bytesPerMegabyte_finite (key_pos_of_one_le one_le_bytesPerMegabyte))
      (isFinite_div hsum hnonneg bytesPerMegabyte_finite one_le_bytesPerMegabyte)
    obtain ⟨r, hr, rfl⟩ := List.mem_map.mp hx
    exact htime r (List.mem_filter.mp hr).1

/-- The average time is the mean of the successes, of which there need not be any. -/
theorem ofRecords_averageTime (records : List Record) :
    (ofRecords records).averageTime =
      mean ((records.filter Record.success).map Record.executionTime) := by
  unfold ofRecords
  dsimp only
  split
  · rename_i hempty
    rw [List.isEmpty_iff.mp hempty]
    rfl
  · rfl

/-- The average memory is the mean of their bytes, as megabytes. -/
theorem ofRecords_averageMemory (records : List Record) :
    (ofRecords records).averageMemory =
      mean ((records.filter Record.success).map fun r => ofNat r.memoryUsage) /
        bytesPerMegabyte := by
  unfold ofRecords
  dsimp only
  split
  · rename_i hempty
    have hzero : (0 : Binary64) = 0 / bytesPerMegabyte := by decide +kernel
    rw [List.isEmpty_iff.mp hempty]
    exact hzero
  · rfl

/-- Metrics of any results are made by `make`. -/
theorem exists_make (results : Results) :
    ∃ time memory rate successful total,
      ofResults results = make time memory rate successful total := by
  unfold ofResults
  split
  · unfold ofRecords
    dsimp only
    split
    · exact ⟨_, _, _, _, _, rfl⟩
    · exact ⟨_, _, _, _, _, rfl⟩
  · exact ⟨_, _, _, _, _, rfl⟩
  · exact ⟨_, _, _, _, _, rfl⟩

theorem isFinite_failureRate (results : Results) :
    (ofResults results).failureRate.isFinite = true := by
  obtain ⟨_, _, rate, _, _, h⟩ := exists_make results
  rw [h]
  exact isFinite_clampToShare rate

theorem successful_le_total (results : Results) :
    (ofResults results).successful ≤ (ofResults results).total := by
  obtain ⟨_, _, _, _, _, h⟩ := exists_make results
  rw [h]
  exact Nat.min_le_right _ _

/-- **The metrics of any value that a document can hold are in range.** -/
theorem ofJson_inRange {v : Json} (h : v.Fits) (origin : Origin) :
    (ofResults (Results.ofJson origin v)).InRange := by
  cases h with
  | array hlen he =>
      refine ofRecords_inRange (by rwa [List.length_map]) (fun r hr => ?_) (fun r hr => ?_)
      · obtain ⟨e, -, rfl⟩ := List.mem_map.mp hr
        exact Record.ofJson_executionTime_nonneg e
      · obtain ⟨e, hmem, rfl⟩ := List.mem_map.mp hr
        exact Record.ofJson_memoryUsage_lt (he e hmem)
  | object _ => exact ofTotals_inRange _
  | null => exact make_inRange (ofNat_nonneg 0) (ofNat_nonneg 0) isFinite_zero
  | bool _ => exact make_inRange (ofNat_nonneg 0) (ofNat_nonneg 0) isFinite_zero
  | number _ => exact make_inRange (ofNat_nonneg 0) (ofNat_nonneg 0) isFinite_zero
  | string _ => exact make_inRange (ofNat_nonneg 0) (ofNat_nonneg 0) isFinite_zero

end Metrics

/-! ## Counts and the failure rate -/

theorem Results.failed_le_total (r : Results) : r.failed ≤ r.total := by
  obtain ⟨origin, content⟩ := r
  cases content with
  | records records => exact List.countP_le_length
  | totals totals => exact Nat.min_le_right _ _
  | empty => exact Nat.le_refl 0

theorem Results.total_lt {v : Json} (h : v.Fits) (origin : Origin) :
    (ofJson origin v).total < 2 ^ 64 := by
  cases h with
  | array hlen _ => exact Nat.lt_of_le_of_lt (Nat.le_of_eq (List.length_map Record.ofJson)) hlen
  | object hf =>
      have hobject : (Json.object _).Fits := .object hf
      exact Json.toCount_lt fun w hw => hobject.get? hw
  | null => exact Nat.two_pow_pos 64
  | bool _ => exact Nat.two_pow_pos 64
  | number _ => exact Nat.two_pow_pos 64
  | string _ => exact Nat.two_pow_pos 64

namespace Metrics

theorem ofRecords_total (records : List Record) : (ofRecords records).total = records.length := by
  unfold ofRecords
  dsimp only
  split <;> rfl

theorem ofResults_total (r : Results) : (ofResults r).total = r.total := by
  obtain ⟨origin, content⟩ := r
  cases content with
  | records records => exact ofRecords_total records
  | totals totals => rfl
  | empty => rfl

/-- The failure rate that counts stand for. -/
def rateOf (failed total : Nat) : Binary64 := (ofNat failed / ofNat (max total 1)).clampToShare

theorem rateOf_self {n : Nat} (h0 : 0 < n) (h : n ≤ 2 ^ 64) : rateOf n n = 1 := by
  unfold rateOf
  rw [Nat.max_eq_left h0, ofNat_div_self h0 h]
  exact clampToShare_of_one_le (one_le_ofNat Nat.one_pos)

/-- More failures than benchmarks count as all of them. -/
theorem rateOf_min {failed total : Nat} (h0 : 0 < total) (h : total ≤ 2 ^ 64)
    (hf : failed ≤ 2 ^ 64) : rateOf (min failed total) total = rateOf failed total := by
  rcases Nat.le_total failed total with hle | hge
  · rw [Nat.min_eq_left hle]
  · rw [Nat.min_eq_right hge, rateOf_self h0 h]
    unfold rateOf
    rw [Nat.max_eq_left h0]
    have hone : 1 ≤ ofNat failed / ofNat total :=
      one_le_div (isFinite_ofNat hf) (isFinite_ofNat h)
        (key_pos_of_one_le (one_le_ofNat h0)) (ofNat_le_ofNat hge)
    exact (clampToShare_of_one_le hone).symm

theorem ofRecords_failureRate {records : List Record} (h0 : 0 < records.length)
    (h : records.length ≤ 2 ^ 64) :
    (ofRecords records).failureRate =
      rateOf (records.countP fun r => !r.success) records.length := by
  have hcount := List.length_eq_countP_add_countP Record.success (l := records)
  rw [List.countP_eq_length_filter] at hcount
  have hneg : records.countP (fun r => !r.success) =
      records.length - (records.filter Record.success).length := by
    have hsame : records.countP (fun r => !r.success) =
        records.countP (fun r => decide ¬ r.success = true) :=
      List.countP_congr fun r _ => by simp
    omega
  unfold ofRecords
  dsimp only
  split
  · -- nothing succeeded, and the rate is the constant one
    rename_i hempty
    rw [hneg, List.isEmpty_iff.mp hempty, List.length_nil, Nat.sub_zero, rateOf_self h0 h]
    exact clampToShare_of_one_le (one_le_ofNat Nat.one_pos)
  · rw [hneg]
    unfold rateOf Binary64.share
    rw [if_neg (Nat.ne_of_gt h0), Nat.max_eq_left h0]
    rfl

/-- **The failure rate is that of the counts**, whatever form the results had. -/
theorem failureRate_eq {v : Json} (hv : v.Fits) (origin : Origin)
    (h0 : 0 < (Results.ofJson origin v).total) :
    (ofResults (Results.ofJson origin v)).failureRate =
      rateOf (Results.ofJson origin v).failed (Results.ofJson origin v).total := by
  have hlt := Results.total_lt hv origin
  cases hv with
  | array hlen _ => exact ofRecords_failureRate h0 (Nat.le_of_lt hlt)
  | object hf =>
      -- totals may count more failures than benchmarks
      have hobject : (Json.object _).Fits := .object hf
      have hfailed : (Totals.ofJson (.object _)).failed < 2 ^ 64 :=
        Json.toCount_lt fun w hw => hobject.get? hw
      exact (rateOf_min h0 (Nat.le_of_lt hlt) (Nat.le_of_lt hfailed)).symm
  | null => exact absurd h0 (Nat.lt_irrefl 0)
  | bool _ => exact absurd h0 (Nat.lt_irrefl 0)
  | number _ => exact absurd h0 (Nat.lt_irrefl 0)
  | string _ => exact absurd h0 (Nat.lt_irrefl 0)

end Metrics

end BenchGate
