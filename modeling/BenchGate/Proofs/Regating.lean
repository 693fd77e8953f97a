import BenchGate.Assessment.Summary
import BenchGate.Proofs.Verdict

/-!
# Gating a summary again

A summary has the shape of totals, so the gate can judge it again. On the way the run loses its
records and its baseline, and what is left has to lead to the same verdict:

* the failure rate is computed from the counts, by another formula than for records;
* whether there was a regression is read from a flag that a run without a success raises as well;
* the averages are only as good as what the encoding makes of them. They are parameters here, so
  that what is said of counts, status and flag holds for any encoding.

With averages that are finite nothing is lost, and the second verdict is the first one.
-/

namespace BenchGate

open Binary64

attribute [local irreducible] unitsInOne unitsAtTop

/-! ## A summary as totals -/

namespace Summary

/-- The value of a summary with these values in the place of its averages. -/
def toJsonWith (s : Summary) (time memory : Json) : Json :=
  .object
    [ ("status", .string s.status.word),
      ("avg_execution_time", time),
      ("memory_usage", memory),
      ("regression_detected", .bool s.regressionDetected),
      ("successful_benchmarks", .ofNat s.successful),
      ("failed_benchmarks", .ofNat s.failed),
      ("total_benchmarks", .ofNat s.total),
      ("recommendations", .ofStrings s.recommendations),
      ("timestamp", .string s.timestamp.toText) ]

theorem toJson_eq (s : Summary) :
    s.toJson = s.toJsonWith (.ofBinary64 s.averageTime) (.ofBinary64 s.averageMemory) := rfl

/-- A summary with these averages, as totals. -/
def totalsWith (s : Summary) (time memory : Binary64) : Totals where
  averageTime := time
  averageMemory := memory
  successful := s.successful
  total := s.total
  failed := s.failed
  regressionDetected := s.regressionDetected
  recommendations := s.recommendations

theorem toTexts_ofStrings (texts : List String) :
    Json.toTexts (some (Json.ofStrings texts)) = texts := by
  have h : (fun element => Json.toText? (some element)) ∘ Json.string = some := rfl
  unfold Json.toTexts Json.ofStrings
  dsimp only
  rw [List.filterMap_map, h, List.filterMap_some]

theorem ofJson_toJsonWith (s : Summary) (time memory : Json) (origin : Origin) :
    Results.ofJson origin (s.toJsonWith time memory) =
      ⟨origin, .totals (s.totalsWith (Json.toMeasure time) (Json.toMeasure memory))⟩ := by
  have htexts := toTexts_ofStrings s.recommendations
  unfold Results.ofJson toJsonWith totalsWith Totals.ofJson
  simp only [Json.get?, List.reverse_cons, List.reverse_nil, List.nil_append, List.cons_append,
    List.lookup_cons, String.reduceBEq]
  rw [htexts]
  rfl

end Summary

theorem Json.toMeasure_ofBinary64 {x : Binary64} (hfin : x.isFinite = true) (h : 0 ≤ x) :
    toMeasure (some (ofBinary64 x)) = x := by
  unfold ofBinary64
  rw [if_pos hfin]
  exact if_pos ⟨hfin, h⟩

/-! ## The assessment of a summary -/

theorem Status.ofMetrics_eq_failed_iff (m : Metrics) (detected : Bool) :
    Status.ofMetrics m detected = .failed ↔ 0 < m.total ∧ m.successful = 0 := by
  unfold Status.ofMetrics
  split
  · rename_i h
    exact ⟨fun hf => Status.noConfusion hf, fun hf => absurd h (Nat.ne_of_gt hf.1)⟩
  · rename_i htotal
    split
    · rename_i h
      exact ⟨fun _ => ⟨Nat.pos_of_ne_zero htotal, h⟩, fun _ => rfl⟩
    · rename_i h
      refine ⟨fun hf => ?_, fun hf => absurd hf.2 h⟩
      split at hf
      · exact Status.noConfusion hf
      · split at hf <;> exact Status.noConfusion hf

/-- A run with a success has the status that its flag and its failure rate give it. -/
theorem Status.ofMetrics_congr {m n : Metrics} {d d' : Bool} (htotal : m.total = n.total)
    (hsucc : m.successful = n.successful)
    (h : 0 < n.successful → d = d' ∧ m.failureRate = n.failureRate) :
    Status.ofMetrics m d = Status.ofMetrics n d' := by
  unfold Status.ofMetrics
  rw [htotal, hsucc]
  by_cases h0 : n.successful = 0
  · simp only [h0, if_true]
  · obtain ⟨hd, hrate⟩ := h (Nat.pos_of_ne_zero h0)
    have hfailures : m.HasFailures ↔ n.HasFailures := by
      unfold Metrics.HasFailures
      rw [hrate]
    simp only [hd, hfailures]

namespace Assessment

/-- An assessment of the value of a document: compared here, or told whether it has regressed. -/
inductive OfDocument (v : Json) (t : Thresholds) : Assessment → Prop where
  | compared (baseline : Option Json) : OfDocument v t (ofDocuments v baseline t)
  | told (detected : Bool) : OfDocument v t (withFlag (.ofJson .current v) detected t)

theorem OfDocument.exists_judge {v : Json} {t : Thresholds} {e : Assessment}
    (h : OfDocument v t e) :
    ∃ comparison detected, e = judge (.ofJson .current v) comparison detected t := by
  cases h with
  | compared baseline => exact ⟨_, _, rfl⟩
  | told detected => exact ⟨_, _, rfl⟩

theorem OfDocument.thresholds_eq {v : Json} {t : Thresholds} {e : Assessment}
    (h : OfDocument v t e) : e.thresholds = t := by
  obtain ⟨comparison, detected, rfl⟩ := h.exists_judge
  rfl

theorem OfDocument.inRange {v : Json} {t : Thresholds} {e : Assessment} (h : OfDocument v t e)
    (hv : v.Fits) : e.current.InRange := by
  obtain ⟨comparison, detected, rfl⟩ := h.exists_judge
  exact Metrics.ofJson_inRange hv .current

/-- The assessment of the summary of a run, read with these averages. -/
def again (e : Assessment) (now : Timestamp) (time memory : Binary64) : Assessment :=
  ofReported ⟨.current, .totals ((e.summary now).totalsWith time memory)⟩ e.thresholds

section Again

variable {v : Json} {t : Thresholds} {e : Assessment} (now : Timestamp) (time memory : Binary64)

theorem again_current (he : OfDocument v t e) :
    (e.again now time memory).current =
      { averageTime := time
        averageMemory := memory
        failureRate := Metrics.rateOf e.failed e.current.total
        successful := e.current.successful
        total := e.current.total } := by
  obtain ⟨comparison, detected, rfl⟩ := he.exists_judge
  -- reading caps the successes at the total, which they are below already
  have hle := Metrics.successful_le_total (.ofJson .current v)
  exact congrArg (fun n => Metrics.mk time memory _ n _) (Nat.min_eq_left hle)

theorem again_failed (he : OfDocument v t e) : (e.again now time memory).failed = e.failed := by
  obtain ⟨comparison, detected, rfl⟩ := he.exists_judge
  have hle := Results.failed_le_total (.ofJson .current v)
  rw [← Metrics.ofResults_total] at hle
  exact Nat.min_eq_left hle

theorem again_failureRate (hv : v.Fits) (he : OfDocument v t e) (h0 : 0 < e.current.total) :
    (e.again now time memory).current.failureRate = e.current.failureRate := by
  rw [again_current now time memory he]
  obtain ⟨comparison, detected, rfl⟩ := he.exists_judge
  have htotal := Metrics.ofResults_total (.ofJson .current v)
  have hrate := Metrics.failureRate_eq hv .current (htotal ▸ h0)
  rw [← htotal] at hrate
  exact hrate.symm

/-- With a benchmark to speak of, only the averages can differ. -/
theorem again_current_of_pos (hv : v.Fits) (he : OfDocument v t e) (h0 : 0 < e.current.total) :
    (e.again now time memory).current =
      { e.current with averageTime := time, averageMemory := memory } := by
  have hrate := again_failureRate now time memory hv he h0
  rw [again_current now time memory he] at hrate ⊢
  exact congrArg (fun rate => Metrics.mk time memory rate _ _) hrate

/-- The flag is raised by a run without a success too, whose status is a failure anyway. -/
theorem again_regressionDetected :
    (e.again now time memory).regressionDetected =
      (e.regressionDetected || decide (e.status = .failed)) := rfl

theorem again_regressionDetected_of_success (h : 0 < e.current.successful) :
    (e.again now time memory).regressionDetected = e.regressionDetected := by
  have hfailed : e.status ≠ .failed := fun hf =>
    Nat.ne_of_gt h ((Status.ofMetrics_eq_failed_iff _ _).mp hf).2
  rw [again_regressionDetected, decide_eq_false hfailed, Bool.or_false]

theorem again_status (hv : v.Fits) (he : OfDocument v t e) :
    (e.again now time memory).status = e.status := by
  have hcurrent := again_current now time memory he
  have hle := (he.inRange hv).successful_le
  refine Status.ofMetrics_congr (by rw [hcurrent]) (by rw [hcurrent]) fun h0 => ⟨?_, ?_⟩
  · exact again_regressionDetected_of_success now time memory h0
  · exact again_failureRate now time memory hv he (Nat.lt_of_lt_of_le h0 hle)

theorem isAccepted_iff (he : OfDocument v t e) :
    e.isAccepted = true ↔ e.current.Passes t.gate ∧ e.regressionDetected = false := by
  obtain ⟨comparison, detected, rfl⟩ := he.exists_judge
  exact judge_isAccepted_iff _ _ _ _

/-- The gate sees the averages that were read, and everything else as it was. -/
theorem again_isAccepted_iff (hv : v.Fits) (he : OfDocument v t e) :
    (e.again now time memory).isAccepted = true ↔
      Metrics.Passes { e.current with averageTime := time, averageMemory := memory } t.gate ∧
        e.regressionDetected = false := by
  have hcurrent := again_current now time memory he
  have hjudge : (e.again now time memory).isAccepted = true ↔
      (e.again now time memory).current.Passes e.thresholds.gate ∧
        (e.again now time memory).regressionDetected = false := judge_isAccepted_iff _ _ _ _
  rw [hjudge, he.thresholds_eq]
  constructor
  · -- the counts are those of the first run, so it has a success as well
    rintro ⟨hpasses, hdet⟩
    have htotal : 0 < e.current.total := by
      have := hpasses.nonempty
      rwa [hcurrent] at this
    have hsucc : 0 < e.current.successful := by
      have := hpasses.success
      rwa [hcurrent] at this
    rw [again_current_of_pos now time memory hv he htotal] at hpasses
    rw [again_regressionDetected_of_success now time memory hsucc] at hdet
    exact ⟨hpasses, hdet⟩
  · rintro ⟨hpasses, hdet⟩
    rw [again_current_of_pos now time memory hv he hpasses.nonempty,
      again_regressionDetected_of_success now time memory hpasses.success]
    exact ⟨hpasses, hdet⟩

end Again

/-! ## The round trip -/

/-- A second assessment that agrees with a first one in everything the gate decides on. -/
structure AgreesWith (second first : Assessment) : Prop where
  averageTime : second.current.averageTime = first.current.averageTime
  averageMemory : second.current.averageMemory = first.current.averageMemory
  successful : second.current.successful = first.current.successful
  total : second.current.total = first.current.total
  failed : second.failed = first.failed
  /-- The failure rate of a run without benchmarks is never looked at. -/
  failureRate : 0 < first.current.total → second.current.failureRate = first.current.failureRate
  status : second.status = first.status
  regressionDetected : ∀ now : Timestamp,
    (second.summary now).regressionDetected = (first.summary now).regressionDetected
  isAccepted : second.isAccepted = first.isAccepted

theorem again_agreesWith {v : Json} {t : Thresholds} {e : Assessment} (hv : v.Fits)
    (he : OfDocument v t e) (now : Timestamp) :
    (e.again now e.current.averageTime e.current.averageMemory).AgreesWith e := by
  have hcurrent := again_current now e.current.averageTime e.current.averageMemory he
  have hstatus := again_status now e.current.averageTime e.current.averageMemory hv he
  refine ⟨by rw [hcurrent], by rw [hcurrent], by rw [hcurrent], by rw [hcurrent],
    again_failed now _ _ he, again_failureRate now _ _ hv he, hstatus, fun later => ?_, ?_⟩
  · -- raising the flag for a failed run a second time changes nothing
    show (_ || decide (_ = _)) = (_ || decide (_ = _))
    rw [hstatus, again_regressionDetected, Bool.or_assoc, Bool.or_self]
  · rw [Bool.eq_iff_iff, again_isAccepted_iff now _ _ hv he, isAccepted_iff he]

/--
**The round trip of a summary.** A run with a finite average time is judged the same way by its
summary as it was in the first place.
-/
theorem ofReported_summary_agreesWith {v : Json} (hv : v.Fits) {t : Thresholds} {e : Assessment}
    (he : OfDocument v t e) (hfin : e.current.averageTime.isFinite = true) (now : Timestamp) :
    (ofReported (.ofJson .current (e.summary now).toJson) t).AgreesWith e := by
  have hrange := he.inRange hv
  have htime : Json.toMeasure (some (.ofBinary64 (e.summary now).averageTime)) =
      e.current.averageTime := Json.toMeasure_ofBinary64 hfin hrange.time_nonneg
  have hmemory : Json.toMeasure (some (.ofBinary64 (e.summary now).averageMemory)) =
      e.current.averageMemory :=
    Json.toMeasure_ofBinary64 hrange.memory_finite hrange.memory_nonneg
  have hread : ofReported (.ofJson .current (e.summary now).toJson) t =
      e.again now e.current.averageTime e.current.averageMemory := by
    rw [Summary.toJson_eq, Summary.ofJson_toJsonWith, htime, hmemory, ← he.thresholds_eq]
    rfl
  rw [hread]
  exact again_agreesWith hv he now

/--
Two successes and a failure, as fast as their baseline or slower, are judged by their summary as
they were; so are totals that claim more successes and failures than there are benchmarks, and a run
that only failed.
-/
theorem ofReported_summary_withFailures :
    let timed (time : Nat) := Json.object
      [("success", .bool true), ("metrics", .object [("executionTime", .ofNat time)])]
    let totals (time successful failed total : Nat) := Json.object
      [("avg_execution_time", .ofNat time), ("successful_benchmarks", .ofNat successful),
        ("failed_benchmarks", .ofNat failed), ("total_benchmarks", .ofNat total)]
    let mixed := Json.array [timed 10, .null, timed 14]
    let t : Thresholds :=
      ⟨{ Tolerances.standard with minBenchmarks := 2 }, { Ceilings.standard with failureRate := 1 }⟩
    let again (e : Assessment) := ofReported (.ofJson .current (e.summary ⟨0, 0⟩).toJson) t
    let equal := ofDocuments mixed (some (totals 12 2 1 3)) t
    let slower := ofDocuments mixed (some (totals 5 2 1 3)) t
    let excessive := ofDocuments (totals 20 50 30 10) none t
    let failed := ofDocuments (.array [.null]) none t
    (again equal).AgreesWith equal ∧ (again slower).AgreesWith slower ∧
      (again excessive).AgreesWith excessive ∧ (again failed).AgreesWith failed ∧
      (equal.status = .partly ∧ equal.isAccepted = true) ∧
      (slower.status = .regression ∧ slower.isAccepted = false) ∧
      (excessive.current.successful = 10 ∧ excessive.failed = 10 ∧ excessive.isAccepted = true) ∧
      failed.status = .failed ∧ failed.isAccepted = false := by
  intro timed totals mixed t again equal slower excessive failed
  have hmixed : mixed.Fits := by simp [mixed, timed]
  have htotals : (totals 20 50 30 10).Fits := by simp [totals]
  have hnull : (Json.array [.null]).Fits := by simp
  refine ⟨?_, ?_, ?_, ?_, by decide +kernel⟩
  · exact ofReported_summary_agreesWith hmixed (.compared _) (by decide +kernel) ⟨0, 0⟩
  · exact ofReported_summary_agreesWith hmixed (.compared _) (by decide +kernel) ⟨0, 0⟩
  · exact ofReported_summary_agreesWith htotals (.compared _) (by decide +kernel) ⟨0, 0⟩
  · exact ofReported_summary_agreesWith hnull (.compared _) (by decide +kernel) ⟨0, 0⟩

end Assessment

end BenchGate
