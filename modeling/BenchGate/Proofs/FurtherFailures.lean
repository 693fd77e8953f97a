import BenchGate.Proofs.Binary64.Values
import BenchGate.Proofs.FailureRate
import BenchGate.Proofs.Verdict

/-!
# One failure more

A failed benchmark adds nothing to an average, and it does not take a success away. What it changes
are the total and the failure rate, from `f / n` to `(f + 1) / (n + 1)`. That is no decrease, and
rounding keeps it so, since both counts are exact up to `2 ^ 53`. A run without records has a rate
of one already, and has failed before and after.

Every part of the verdict asks for a low rate and for enough successes, so a run that was rejected
stays rejected, whatever the thresholds are and whatever it is compared with.
-/

namespace BenchGate

open Binary64

attribute [local irreducible] unitsInOne unitsAtTop

/-! ## The rate -/

/-- **A share does not fall when its part and the whole both grow by one.** -/
theorem Binary64.share_le_share_succ {part whole : Nat} (h0 : 0 < whole) (hle : part ≤ whole)
    (hwhole : whole < 2 ^ 53) : share part whole ≤ share (part + 1) (whole + 1) := by
  have hshare := roundsShare_share h0 hle (Nat.le_of_lt hwhole)
  have hnext := roundsShare_share (Nat.succ_pos whole) (Nat.succ_le_succ hle) hwhole
  refine hshare.rounds.mono hnext.rounds ?_
  have hpos : (0 : ℚ) < whole := Nat.cast_pos.mpr h0
  have hparts : (part : ℚ) ≤ whole := Nat.cast_le.mpr hle
  push_cast
  rw [div_le_div_iff₀ hpos (by linarith)]
  linarith

/-- Nothing that is at most a number that is not above a bound is above the bound. -/
theorem not_lt_of_le {bound x y : Binary64} (hyx : y ≤ x) (h : ¬ bound < x) : ¬ bound < y := by
  intro hy
  have hkeys := hyx.2.2
  have habove := hy.2.2
  exact h ⟨hy.1, hyx.2.1, by omega⟩

/-! ## Metrics -/

/-- The second metrics are those of a run with more failures, and the same in all else. -/
structure Metrics.FailsMore (m n : Metrics) : Prop where
  time : n.averageTime = m.averageTime
  memory : n.averageMemory = m.averageMemory
  successful : n.successful = m.successful
  failureRate : m.failureRate ≤ n.failureRate

namespace Metrics

variable {before after : List Record} {r : Record}

theorem filter_success_append_cons (before after : List Record) (hr : r.success = false) :
    (before ++ r :: after).filter Record.success = (before ++ after).filter Record.success := by
  simp [List.filter_append, hr]

/-- Averages are taken of the successes. -/
theorem averages_congr {rs ss : List Record}
    (h : rs.filter Record.success = ss.filter Record.success) :
    (ofRecords rs).averageTime = (ofRecords ss).averageTime ∧
      (ofRecords rs).averageMemory = (ofRecords ss).averageMemory := by
  rw [ofRecords_averageTime, ofRecords_averageTime, ofRecords_averageMemory,
    ofRecords_averageMemory, h]
  exact ⟨rfl, rfl⟩

theorem failureRate_append_cons (hr : r.success = false)
    (hlen : (before ++ after).length < 2 ^ 53) :
    (ofRecords (before ++ after)).failureRate ≤
      (ofRecords (before ++ r :: after)).failureRate := by
  have hnonempty : before ++ r :: after ≠ [] := by simp
  have hlength : (before ++ r :: after).length = (before ++ after).length + 1 := by
    simp only [List.length_append, List.length_cons]
    omega
  have hfailed : (before ++ r :: after).countP (fun s => !s.success) =
      (before ++ after).countP (fun s => !s.success) + 1 := by
    simp only [List.countP_append, List.countP_cons, hr, Bool.not_false, if_true]
    omega
  rw [ofRecords_failureRate_eq_share hnonempty (by omega), hlength, hfailed]
  rcases List.eq_nil_or_concat (before ++ after) with hnil | hsome
  · -- the rate of no records is the rate of a single failure
    rw [hnil, ofRecords_nil_failureRate]
    show (1 : Binary64) ≤ share 1 1
    rw [share_self Nat.one_pos (by decide)]
    exact le_refl (ofNat_ne_nan 1)
  · have hne : before ++ after ≠ [] := by
      obtain ⟨_, _, hconcat⟩ := hsome
      simp [hconcat]
    rw [ofRecords_failureRate_eq_share hne (by omega)]
    exact share_le_share_succ (List.length_pos_iff.mpr hne) List.countP_le_length hlen

/-- **What a failed record changes**, wherever it is put in. -/
theorem failsMore_append_cons (hr : r.success = false)
    (hlen : (before ++ after).length < 2 ^ 53) :
    (ofRecords (before ++ after)).FailsMore (ofRecords (before ++ r :: after)) := by
  have hsuccesses := filter_success_append_cons before after hr
  obtain ⟨htime, hmemory⟩ := averages_congr hsuccesses
  refine ⟨htime, hmemory, ?_, failureRate_append_cons hr hlen⟩
  rw [ofRecords_successful, ofRecords_successful, List.countP_eq_length_filter,
    List.countP_eq_length_filter, hsuccesses]

/-! ## The verdict -/

variable {m n : Metrics}

theorem FailsMore.passes (h : m.FailsMore n) (hm : m.successful ≤ m.total) {ceilings : Ceilings}
    (hn : n.Passes ceilings) : m.Passes ceilings := by
  have hsuccess : 0 < m.successful := h.successful ▸ hn.success
  refine ⟨by omega, hsuccess, ?_, ?_, ?_⟩
  · exact h.time ▸ hn.time
  · exact h.memory ▸ hn.memory
  · exact not_lt_of_le h.failureRate hn.failureRate

theorem FailsMore.tolerable (h : m.FailsMore n) {baseline : Metrics}
    (hb : baseline.failureRate.isFinite = true) {tolerances : Tolerances}
    (hn : n.Tolerable baseline tolerances) : m.Tolerable baseline tolerances := by
  refine ⟨?_, ?_, ?_, ?_⟩
  · exact h.successful ▸ hn.enough
  · exact h.time ▸ hn.time
  · exact h.memory ▸ hn.memory
  · exact not_lt_of_le (sub_le_sub_right h.failureRate hb) hn.failureRate

end Metrics

namespace Assessment

/-- A run is accepted if it is accepted with more failures. -/
theorem isAccepted_of_failsMore {results more : Results} (baseline : Option Results)
    {t : Thresholds} (h : (Metrics.ofResults results).FailsMore (Metrics.ofResults more))
    (hmore : (ofResults more baseline t).isAccepted = true) :
    (ofResults results baseline t).isAccepted = true := by
  rw [ofResults_isAccepted_iff] at hmore ⊢
  obtain ⟨hpasses, htolerable⟩ := hmore
  refine ⟨h.passes (Metrics.successful_le_total results) hpasses, fun b hb => ?_⟩
  exact h.tolerable (Metrics.isFinite_failureRate b) (htolerable b hb)

/--
**A further failure never helps.** Put a value that is read as a failed record anywhere into an
array of fewer than `2 ^ 53 - 1` elements: the averages and the number of successes stay the same,
bit for bit, the failure rate does not fall, and a run that was rejected is rejected. This holds
with any baseline and under any thresholds, in range or not.
-/
theorem ofDocuments_failsMore {before after : List Json} {failure : Json}
    (hfailure : (Record.ofJson failure).success = false)
    (hlen : (before ++ after).length < 2 ^ 53 - 1) (baseline : Option Json) (t : Thresholds) :
    let current : Json := .array (before ++ after)
    let more : Json := .array (before ++ failure :: after)
    (Metrics.ofDocument .current current).FailsMore (Metrics.ofDocument .current more) ∧
      ((ofDocuments current baseline t).isAccepted = false →
        (ofDocuments more baseline t).isAccepted = false) := by
  intro current more
  have hfails : (Metrics.ofDocument .current current).FailsMore
      (Metrics.ofDocument .current more) := by
    have hrecords :
        (Metrics.ofRecords (before.map Record.ofJson ++ after.map Record.ofJson)).FailsMore
          (.ofRecords (before.map .ofJson ++ .ofJson failure :: after.map .ofJson)) := by
      refine Metrics.failsMore_append_cons hfailure ?_
      rw [← List.map_append, List.length_map]
      omega
    rw [← List.map_append, ← List.map_cons, ← List.map_append] at hrecords
    exact hrecords
  refine ⟨hfails, fun hrejected => ?_⟩
  rw [← Bool.not_eq_true] at hrejected ⊢
  exact mt (isAccepted_of_failsMore (baseline.map (.ofJson .baseline)) hfails) hrejected

/-- A success before a failure, with another failure in between. -/
theorem ofDocuments_failsMore_between :
    let success := Json.object [("success", .bool true)]
    let failure := Json.object [("suite", .string "s"), ("success", .bool false)]
    (ofDocuments (.array [success, .null]) none .standard).isAccepted = false ∧
      (ofDocuments (.array [success, failure, .null]) none .standard).isAccepted = false := by
  intro success failure
  have hrejected : (ofDocuments (.array [success, .null]) none .standard).isAccepted = false := by
    decide +kernel
  have hmore := @ofDocuments_failsMore [success] [.null] failure rfl (by decide) none .standard
  exact ⟨hrejected, hmore.2 hrejected⟩

end Assessment

end BenchGate
