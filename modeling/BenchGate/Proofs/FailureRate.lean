import BenchGate.Proofs.Binary64.Shares
import BenchGate.Proofs.Metrics

/-!
# What the failure rate says

The failure rate of a list of records is the share of those that failed. As long as the list has at
most `2 ^ 53` of them, counts are exact and the share is rounded once, so the two ends of the range
keep their meaning: a rate of one says that nothing succeeded, a rate of zero that nothing failed.

An empty list has a rate of one. It has no success, and nothing in it shows that anything works.
-/

namespace BenchGate

open Binary64

attribute [local irreducible] unitsInOne unitsAtTop

namespace Metrics

variable {records : List Record}

/-! ## Counts -/

theorem ofRecords_successful (records : List Record) :
    (ofRecords records).successful = records.countP Record.success := by
  rw [List.countP_eq_length_filter]
  unfold ofRecords
  dsimp only
  split
  · rename_i hempty
    rw [List.isEmpty_iff.mp hempty]
    exact Nat.zero_min _
  · exact Nat.min_eq_left (List.length_filter_le _ _)

/-- Every record is a success or a failure. -/
theorem successful_add_failed (records : List Record) :
    (ofRecords records).successful + records.countP (fun r => !r.success) = records.length := by
  rw [ofRecords_successful, List.length_eq_countP_add_countP Record.success]
  congr 1
  exact List.countP_congr fun r _ => by simp

/-! ## The rate -/

theorem rateOf_eq_share {failed total : Nat} (h0 : 0 < total) (hle : failed ≤ total)
    (h : total ≤ 2 ^ 64) : rateOf failed total = share failed total := by
  have hshare : rateOf failed total = (share failed total).clampToShare := by
    unfold rateOf share
    rw [if_neg (Nat.ne_of_gt h0), Nat.max_eq_left h0]
  obtain ⟨hnonneg, hone⟩ := share_bounds h0 hle h
  rw [hshare, clampToShare_of_bounds hnonneg hone]

/-- The failure rate of records is the share that failed. -/
theorem ofRecords_failureRate_eq_share (h0 : records ≠ []) (h : records.length ≤ 2 ^ 64) :
    (ofRecords records).failureRate =
      share (records.countP fun r => !r.success) records.length := by
  have hpos : 0 < records.length := List.length_pos_iff.mpr h0
  rw [ofRecords_failureRate hpos h, rateOf_eq_share hpos List.countP_le_length h]

theorem ofRecords_nil_failureRate : (ofRecords []).failureRate = 1 :=
  clampToShare_of_one_le (one_le_ofNat Nat.one_pos)

/-- **A rate of one says that nothing succeeded.** -/
theorem ofRecords_failureRate_eq_one_iff (h : records.length ≤ 2 ^ 53) :
    (ofRecords records).failureRate = 1 ↔ ∀ r ∈ records, r.success = false := by
  by_cases h0 : records = []
  · rw [h0, ofRecords_nil_failureRate]
    simp
  rw [ofRecords_failureRate_eq_share h0 (by omega)]
  have hpos : 0 < records.length := List.length_pos_iff.mpr h0
  have hall : (∀ r ∈ records, r.success = false) ↔
      records.countP (fun r => !r.success) = records.length := by
    rw [List.countP_eq_length]
    simp
  rw [hall]
  constructor
  · intro hone
    rcases Nat.lt_or_eq_of_le (List.countP_le_length (l := records)
      (p := fun r => !r.success)) with hlt | heq
    · have hbelow := share_lt_one hlt h
      rw [hone] at hbelow
      exact absurd hbelow.2.2 (Int.lt_irrefl _)
    · exact heq
  · intro hcount
    rw [hcount, share_self hpos (by omega)]

/-- Any failure shows in the rate, and so does the lack of records. -/
theorem ofRecords_hasFailures_iff (h : records.length ≤ 2 ^ 53) :
    (ofRecords records).HasFailures ↔ ¬ (records ≠ [] ∧ ∀ r ∈ records, r.success = true) := by
  unfold HasFailures
  by_cases h0 : records = []
  · rw [h0, ofRecords_nil_failureRate]
    simp only [ne_eq, not_true_eq_false, false_and, not_false_eq_true, iff_true]
    exact zero_lt_iff.mpr ⟨ofNat_ne_nan 1, key_pos_of_one_le (one_le_ofNat Nat.one_pos)⟩
  rw [ofRecords_failureRate_eq_share h0 (by omega)]
  have hall : (records ≠ [] ∧ ∀ r ∈ records, r.success = true) ↔
      records.countP (fun r => !r.success) = 0 := by
    rw [List.countP_eq_zero]
    simp [h0]
  rw [hall]
  constructor
  · intro hpos hzero
    rw [hzero, share_zero (by omega)] at hpos
    exact Int.lt_irrefl _ hpos.2.2
  · intro hne
    exact share_pos (Nat.pos_of_ne_zero hne) List.countP_le_length (by omega)

/-- **A rate of zero says that there are records and nothing failed.** -/
theorem ofRecords_failureRate_eq_zero_iff (h : records.length ≤ 2 ^ 53) :
    (ofRecords records).failureRate = 0 ↔ records ≠ [] ∧ ∀ r ∈ records, r.success = true := by
  constructor
  · intro hzero
    have hnone : ¬ (ofRecords records).HasFailures := by
      unfold HasFailures
      rw [hzero]
      exact fun hpos => Int.lt_irrefl _ hpos.2.2
    exact Classical.not_not.mp (mt (ofRecords_hasFailures_iff h).mpr hnone)
  · rintro ⟨h0, hall⟩
    have hcount : records.countP (fun r => !r.success) = 0 := by
      rw [List.countP_eq_zero]
      simpa using hall
    rw [ofRecords_failureRate_eq_share h0 (by omega), hcount, share_zero (by omega)]

/-! ## The ranges of metrics -/

/--
**Metrics are in range, whatever value they are read from.** Those of an array also count each
element once, and their failure rate is one exactly when nothing succeeded, and zero exactly when
there is something and nothing failed; in any other case it is above zero.
-/
theorem ofJson_ranges {v : Json} (h : v.Fits) (origin : Origin) :
    let r := Results.ofJson origin v
    let m := ofResults r
    ((0 ≤ m.failureRate ∧ m.failureRate ≤ 1) ∧ m.successful ≤ m.total ∧
      (0 ≤ m.averageTime ∧ m.averageTime ≠ nan) ∧ (0 ≤ m.averageMemory ∧ m.averageMemory ≠ nan) ∧
      r.failed ≤ r.total ∧ r.total = m.total) ∧
    ∀ elements, v = .array elements → elements.length < 2 ^ 53 →
      m.successful + r.failed = m.total ∧
      (m.failureRate = 1 ↔ ∀ e ∈ elements, (Record.ofJson e).success = false) ∧
      (m.failureRate = 0 ↔
        elements ≠ [] ∧ ∀ e ∈ elements, (Record.ofJson e).success = true) ∧
      (m.HasFailures ↔
        ¬ (elements ≠ [] ∧ ∀ e ∈ elements, (Record.ofJson e).success = true)) := by
  intro r m
  have hm : m.InRange := ofJson_inRange h origin
  refine ⟨⟨⟨hm.rate_nonneg, hm.rate_le_one⟩, hm.successful_le,
    ⟨hm.time_nonneg, hm.time_nonneg.2.1⟩, ⟨hm.memory_nonneg, hm.memory_nonneg.2.1⟩,
    r.failed_le_total, (ofResults_total r).symm⟩, ?_⟩
  rintro elements rfl hlen
  have hrecords : (elements.map Record.ofJson).length ≤ 2 ^ 53 := by
    rw [List.length_map]
    exact Nat.le_of_lt hlen
  refine ⟨?_, ?_, ?_, ?_⟩
  · rw [ofResults_total]
    exact successful_add_failed (elements.map Record.ofJson)
  · have hone := ofRecords_failureRate_eq_one_iff hrecords
    rwa [List.forall_mem_map] at hone
  · have hzero := ofRecords_failureRate_eq_zero_iff hrecords
    rwa [List.forall_mem_map, ne_eq, List.map_eq_nil_iff] at hzero
  · have hfailures := ofRecords_hasFailures_iff hrecords
    rwa [List.forall_mem_map, ne_eq, List.map_eq_nil_iff] at hfailures

/-- A success beside a value that is no record: neither all nor nothing failed. -/
theorem ofJson_ranges_partly :
    let r := Results.ofJson .current (.array [.object [("success", .bool true)], .null])
    (ofResults r).successful + r.failed = 2 ∧
      (ofResults r).failureRate ≠ 1 ∧ (ofResults r).failureRate ≠ 0 := by
  intro r
  have hfits : (Json.array [.object [("success", .bool true)], .null]).Fits := by simp
  obtain ⟨hcount, hone, hzero, -⟩ := (ofJson_ranges hfits .current).2 _ rfl (by decide)
  refine ⟨hcount, ?_, ?_⟩
  · rw [ne_eq, hone]
    decide
  · rw [ne_eq, hzero]
    decide

end Metrics

end BenchGate
