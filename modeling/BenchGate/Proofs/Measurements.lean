import BenchGate.Assessment.Summary
import BenchGate.Proofs.Binary64.Sums
import BenchGate.Proofs.Verdict

/-!
# What a decision depends on

Of every record, a decision uses whether the benchmark succeeded, and of a success the time and the
memory. Names, metadata, errors and what a failed benchmark has measured do not matter. So two runs
whose records have the same outcomes, one by one, have the same metrics and the same decision, and
the same is true of two baselines.
-/

namespace BenchGate

open Binary64

attribute [local irreducible] unitsInOne unitsAtTop

/-- Both benchmarks failed, or both succeeded and measured the same values. -/
structure Record.SameOutcome (r s : Record) : Prop where
  success : r.success = s.success
  time : r.success = true → r.executionTime.SameValue s.executionTime
  memory : r.success = true → r.memoryUsage = s.memoryUsage

theorem Record.SameOutcome.symm {r s : Record} (h : r.SameOutcome s) : s.SameOutcome r where
  success := h.success.symm
  time hs := And.symm (h.time (h.success.trans hs))
  memory hs := (h.memory (h.success.trans hs)).symm

/-- Two documents hold records with the same outcomes, one by one. -/
def Json.SameOutcomes (vs ws : List Json) : Prop :=
  List.Forall₂ (fun v w => (Record.ofJson v).SameOutcome (.ofJson w)) vs ws

theorem Json.SameOutcomes.symm {vs ws : List Json} (h : SameOutcomes vs ws) : SameOutcomes ws vs :=
  List.Forall₂.flip (h.imp fun _ _ hvw => hvw.symm)

/-! ## Metrics -/

variable {rs ss : List Record}

theorem successes_of_sameOutcome (h : List.Forall₂ Record.SameOutcome rs ss) :
    List.Forall₂ (fun r s => r.executionTime.SameValue s.executionTime ∧
      r.memoryUsage = s.memoryUsage) (rs.filter Record.success) (ss.filter Record.success) := by
  induction h with
  | nil => exact .nil
  | @cons r s rs ss hrs _ ih =>
      rw [List.filter_cons, List.filter_cons, ← hrs.success]
      split
      · rename_i hsuccess
        exact .cons ⟨hrs.time hsuccess, hrs.memory hsuccess⟩ ih
      · exact ih

theorem failures_of_sameOutcome (h : List.Forall₂ Record.SameOutcome rs ss) :
    rs.countP (fun r => !r.success) = ss.countP fun s => !s.success := by
  induction h with
  | nil => rfl
  | @cons r s rs ss hrs _ ih => rw [List.countP_cons, List.countP_cons, ih, hrs.success]

/-- **Metrics depend on outcomes only.** -/
theorem Metrics.ofRecords_congr (h : List.Forall₂ Record.SameOutcome rs ss)
    (hnonneg : ∀ r ∈ rs, 0 ≤ r.executionTime) : ofRecords rs = ofRecords ss := by
  have hsuccesses := successes_of_sameOutcome h
  have hlen := h.length_eq
  have hempty : (rs.filter Record.success).isEmpty = (ss.filter Record.success).isEmpty := by
    rw [Bool.eq_iff_iff, List.isEmpty_iff_length_eq_zero, List.isEmpty_iff_length_eq_zero,
      hsuccesses.length_eq]
  have htime : mean ((rs.filter Record.success).map Record.executionTime) =
      mean ((ss.filter Record.success).map Record.executionTime) := by
    refine mean_congr ?_ fun x hx => ?_
    · rw [List.forall₂_map_left_iff, List.forall₂_map_right_iff]
      exact hsuccesses.imp fun _ _ hrs => hrs.1
    · obtain ⟨r, hr, rfl⟩ := List.mem_map.mp hx
      exact hnonneg r (List.mem_filter.mp hr).1
  have hmemory : (rs.filter Record.success).map (fun r => ofNat r.memoryUsage) =
      (ss.filter Record.success).map fun s => ofNat s.memoryUsage := by
    rw [← List.forall₂_eq_eq_eq, List.forall₂_map_left_iff, List.forall₂_map_right_iff]
    exact hsuccesses.imp fun _ _ hrs => congrArg ofNat hrs.2
  unfold ofRecords
  dsimp only
  rw [hempty, hlen, htime, hmemory, hsuccesses.length_eq]

/-- The same of what an array holds, whose times are never negative. -/
theorem Metrics.ofResults_array_congr {vs ws : List Json} (h : Json.SameOutcomes vs ws)
    (origin : Origin) :
    ofResults (.ofJson origin (.array vs)) = ofResults (.ofJson origin (.array ws)) := by
  have hrecords :
      List.Forall₂ Record.SameOutcome (vs.map Record.ofJson) (ws.map Record.ofJson) := by
    rw [List.forall₂_map_left_iff, List.forall₂_map_right_iff]
    exact h
  refine ofRecords_congr hrecords fun r hr => ?_
  obtain ⟨v, -, rfl⟩ := List.mem_map.mp hr
  exact Record.ofJson_executionTime_nonneg v

/-! ## Decisions -/

namespace Assessment

/-- All that follows from metrics, the comparison, the verdict of the gate and the failures. -/
structure SameDecision (e e' : Assessment) : Prop where
  current : e.current = e'.current
  comparison : e.comparison = e'.comparison
  gate : e.gate = e'.gate
  isAccepted : e.isAccepted = e'.isAccepted
  status : e.status = e'.status
  summary : ∀ now, e.summary now = e'.summary now

/-- Nothing else of an assessment matters to them. -/
theorem sameDecision_of_fields {e e' : Assessment} (hcurrent : e.current = e'.current)
    (hcomparison : e.comparison = e'.comparison) (hgate : e.gate = e'.gate)
    (hfailed : e.failed = e'.failed) : e.SameDecision e' := by
  obtain ⟨t, current, comparison, gate, failed, statistics, hints⟩ := e
  obtain ⟨t', current', comparison', gate', failed', statistics', hints'⟩ := e'
  dsimp only at hcurrent hcomparison hgate hfailed
  subst hcurrent hcomparison hgate hfailed
  exact ⟨rfl, rfl, rfl, rfl, rfl, fun now => rfl⟩

theorem ofResults_some (results baseline : Results) (t : Thresholds) :
    let c := Comparison.of (.ofResults baseline) (.ofResults results) t.regression
    ofResults results (some baseline) t = judge results (some c) c.regression.detected t := rfl

theorem sameDecision_judge {results results' : Results}
    (hmetrics : Metrics.ofResults results = Metrics.ofResults results')
    (hfailed : results.failed = results'.failed) (comparison : Option Comparison) (detected : Bool)
    (t : Thresholds) :
    (judge results comparison detected t).SameDecision (judge results' comparison detected t) :=
  sameDecision_of_fields hmetrics rfl (congrArg (GateVerdict.ofMetrics · detected t.gate) hmetrics)
    hfailed

/--
**Failed measurements and metadata do not matter to a decision.** Two runs over records with the
same outcomes, one by one, against baselines whose records have the same outcomes, or against none,
have the same metrics, comparison, verdict, status and summary.
-/
theorem sameDecision_of_sameOutcomes {current other : List Json}
    (hcurrent : Json.SameOutcomes current other) {baseline otherBaseline : Option (List Json)}
    (hbaseline : Option.Rel Json.SameOutcomes baseline otherBaseline) (t : Thresholds) :
    let e := ofDocuments (.array current) (baseline.map .array) t
    let e' := ofDocuments (.array other) (otherBaseline.map .array) t
    e.SameDecision e' := by
  intro e e'
  have hmetrics := Metrics.ofResults_array_congr hcurrent .current
  have hfailed : (Results.ofJson .current (.array current)).failed =
      (Results.ofJson .current (.array other)).failed := by
    refine failures_of_sameOutcome ?_
    rw [List.forall₂_map_left_iff, List.forall₂_map_right_iff]
    exact hcurrent
  cases hbaseline with
  | none => exact sameDecision_judge hmetrics hfailed none false t
  | @some b b' hb =>
      have hbase := Metrics.ofResults_array_congr hb .baseline
      change (ofResults (.ofJson .current (.array current)) (some (.ofJson .baseline (.array b)))
        t).SameDecision (ofResults (.ofJson .current (.array other))
          (some (.ofJson .baseline (.array b'))) t)
      rw [ofResults_some, ofResults_some, hbase, hmetrics]
      exact sameDecision_judge hmetrics hfailed _ _ t

/-- A success and a failure with measurements, and the same with names and without. The first time
is a zero of either sign. -/
theorem sameDecision_of_sameOutcomes_named :
    let measured (time : JsonNumber) : Json := .object [("executionTime", .number time)]
    let current := [Json.object [("success", .bool true), ("metrics", measured (.natural 0))],
      .object [("metrics", measured (.natural 7)), ("error", .string "timeout")]]
    let other := [Json.object [("suite", .string "s"), ("success", .bool true),
      ("metrics", measured (.binary (-0)))], .null]
    (ofDocuments (.array current) (some (.array other)) .standard).SameDecision
      (ofDocuments (.array other) (some (.array current)) .standard) := by
  intro measured current other
  have hsame : Json.SameOutcomes current other := by
    refine .cons ⟨by decide +kernel, fun _ => ?_, fun _ => by decide +kernel⟩
      (.cons ⟨by decide +kernel, fun h => ?_, fun h => ?_⟩ .nil)
    · exact sameValue_iff.mpr (by decide +kernel)
    · exact absurd h (by decide +kernel)
    · exact absurd h (by decide +kernel)
  exact sameDecision_of_sameOutcomes hsame (.some hsame.symm) .standard

end Assessment

end BenchGate
