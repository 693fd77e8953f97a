import BenchGate.Assessment.Summary
import BenchGate.Proofs.Verdict

/-!
# What is told about a run

The outcome of a run is told in many places: by the lines of the gate, its reasons, the status, the
summary, the recommendations, and with a baseline by the comparison and its text. Each of them is
put together on its own. Here they are shown to tell the same.

The lines that a verdict consists of are the only ones of the gate with more than one span, so they
cannot be mistaken for the values above them.
-/

namespace BenchGate

open Assessment

attribute [local irreducible] unitsInOne unitsAtTop

/-! ## The lines of the gate -/

namespace GateVerdict

variable {d : GateVerdict} {failed : Nat} {failure : Option String}

theorem mem_lines_iff {line : Line} (h : line.length ≠ 1) :
    line ∈ d.lines failed failure ↔ line ∈ verdictLines d failure := by
  have hplain : ∀ text, line ≠ plainLine text := fun text heq => h (congrArg List.length heq)
  unfold lines ceilingLine
  simp only [List.mem_append, List.mem_cons, List.not_mem_nil, hplain, or_false, false_or]

/-- No failure can be taken for the line of a run that passes. -/
theorem failLine_ne_passLine (why : String) : failLine why ≠ passLine := by
  intro heq
  have hstyles : [Style.plain, .bad, .plain] = [Style.plain, .good, .plain] :=
    congrArg (List.map Span.style) heq
  exact absurd hstyles (by decide)

theorem passLine_mem_lines_iff :
    passLine ∈ d.lines failed failure ↔ failure = none ∧ d.reasons = [] := by
  rw [mem_lines_iff (by decide)]
  unfold verdictLines
  have hreasons : passLine ∉ d.reasons.map fun reason => failLine reason.message := by
    intro hmem
    obtain ⟨reason, -, heq⟩ := List.mem_map.mp hmem
    exact failLine_ne_passLine _ heq
  cases failure with
  | some why => simpa [hreasons] using (failLine_ne_passLine why).symm
  | none => simp [hreasons, passed]

theorem exists_failLine_mem_lines_iff :
    (∃ why, failLine why ∈ d.lines failed failure) ↔ failure ≠ none ∨ d.reasons ≠ [] := by
  have hlen : ∀ why, (failLine why).length ≠ 1 := fun _ => by simp [failLine]
  simp only [mem_lines_iff (hlen _)]
  unfold verdictLines
  constructor
  · rintro ⟨why, hmem⟩
    rcases List.mem_append.mp hmem with hmem | hmem
    · cases failure with
      | some _ => exact .inl nofun
      | none =>
          -- without a failure only the line of a run that passes can stand there
          change failLine why ∈ (if d.passed then [passLine] else []) at hmem
          split at hmem
          · exact absurd (List.mem_singleton.mp hmem) (failLine_ne_passLine why)
          · exact absurd hmem List.not_mem_nil
    · exact .inr fun hnil => by rw [hnil] at hmem; exact List.not_mem_nil hmem
  · rintro (hfailure | hreasons)
    · obtain ⟨why, rfl⟩ := Option.ne_none_iff_exists'.mp hfailure
      exact ⟨why, List.mem_append_left _ (List.mem_singleton.mpr rfl)⟩
    · obtain ⟨reason, hmem⟩ := List.exists_mem_of_ne_nil _ hreasons
      exact ⟨reason.message, List.mem_append_right _ (List.mem_map_of_mem hmem)⟩

end GateVerdict

/-! ## The status -/

theorem Status.failure?_eq_some_iff {s : Status} {f : RunFailure} :
    s.failure? = some f ↔ (s = .error ∧ f = .noResults) ∨ (s = .failed ∧ f = .allFailed) := by
  cases s <;> cases f <;> decide

theorem Status.pass_or_partly_of_no_failure {m : Metrics}
    (h : (Status.ofMetrics m false).failure? = none) :
    Status.ofMetrics m false = .pass ∨ Status.ofMetrics m false = .partly := by
  obtain ⟨htotal, hsuccess⟩ := (Status.failure?_eq_none_iff m false).mp h
  unfold Status.ofMetrics
  rw [if_neg (Nat.ne_of_gt htotal), if_neg (Nat.ne_of_gt hsuccess), if_neg Bool.false_ne_true]
  split
  · exact .inr rfl
  · exact .inl rfl

/-! ## Findings -/

namespace Regression

/-- Whether the flag of a metric is raised. -/
def Raised (r : Regression) : Prop :=
  r.timeRegressed = true ∨ r.memoryRegressed = true ∨ r.failureRateRegressed = true

/-- One finding for every raised flag, in the order time, memory, failure rate. -/
def raisedFindings (r : Regression) (tolerances : Tolerances) : List Finding :=
  (if r.timeRegressed then [.slower r.timeChange tolerances.time] else []) ++
  (if r.memoryRegressed then [.moreMemory r.memoryChange tolerances.memory] else []) ++
  (if r.failureRateRegressed
    then [.moreFailures r.failureRateChange tolerances.failureRate] else [])

/-- The finding that is left when no flag is raised. -/
def loneFinding (r : Regression) (successful : Nat) (tolerances : Tolerances) : Finding :=
  if successful < tolerances.minBenchmarks then
    .tooFewBenchmarks successful tolerances.minBenchmarks
  else .withinTolerances r.timeChange r.memoryChange r.failureRateChange tolerances

/-- What the flags of a comparison say about its outcome and its findings, for a run with a number
of successes. -/
structure TellsFindings (r : Regression) (successful : Nat) (tolerances : Tolerances) : Prop where
  detected_of_raised : r.Raised → r.detected = true
  /-- Without a flag there is a regression only for want of successes. -/
  detected_not_raised : r.detected = true ∧ ¬ r.Raised ↔ successful < tolerances.minBenchmarks
  findings_of_raised : r.Raised → r.findings = r.raisedFindings tolerances
  findings_of_not_raised : ¬ r.Raised → r.findings = [r.loneFinding successful tolerances]

theorem raisedFindings_eq_nil_iff {r : Regression} {tolerances : Tolerances} :
    r.raisedFindings tolerances = [] ↔ ¬ r.Raised := by
  unfold raisedFindings Raised
  simp only [List.append_eq_nil_iff, ite_eq_right_iff, List.cons_ne_nil, imp_false, not_or,
    and_assoc]

theorem tellsFindings_insufficient {successful : Nat} {tolerances : Tolerances}
    (hfew : successful < tolerances.minBenchmarks) :
    (insufficient successful tolerances.minBenchmarks).TellsFindings successful tolerances := by
  have hnot : ¬ (insufficient successful tolerances.minBenchmarks).Raised := by
    rintro (h | h | h) <;> exact Bool.noConfusion h
  exact {
    detected_of_raised := fun h => absurd h hnot
    detected_not_raised := iff_of_true ⟨rfl, hnot⟩ hfew
    findings_of_raised := fun h => absurd h hnot
    findings_of_not_raised := fun _ => congrArg (fun finding => [finding]) (if_pos hfew).symm }

/-- With enough benchmarks the flags decide, and the findings are those of the flags. -/
theorem tellsFindings_of_flags {r : Regression} {successful : Nat} {tolerances : Tolerances}
    (henough : ¬ successful < tolerances.minBenchmarks) (hdetected : r.detected = true ↔ r.Raised)
    (hfindings : r.findings = findingsOf tolerances r.timeRegressed r.memoryRegressed
      r.failureRateRegressed r.timeChange r.memoryChange r.failureRateChange) :
    r.TellsFindings successful tolerances where
  detected_of_raised := hdetected.mpr
  detected_not_raised := iff_of_false (fun h => h.2 (hdetected.mp h.1)) henough
  findings_of_raised h := by
    have hsome : r.raisedFindings tolerances ≠ [] :=
      fun hnil => raisedFindings_eq_nil_iff.mp hnil h
    exact hfindings.trans (if_neg (mt List.isEmpty_iff.mp hsome))
  findings_of_not_raised h := by
    have hnil : r.raisedFindings tolerances = [] := raisedFindings_eq_nil_iff.mpr h
    rw [loneFinding, if_neg henough]
    exact hfindings.trans (if_pos (List.isEmpty_iff.mpr hnil))

/-- **The findings of a comparison are those of its flags.** -/
theorem between_tellsFindings (baseline current : Metrics) (tolerances : Tolerances) :
    (between baseline current tolerances).TellsFindings current.successful tolerances := by
  unfold between
  split
  · rename_i hfew
    exact tellsFindings_insufficient hfew
  · rename_i henough
    refine tellsFindings_of_flags henough ?_ rfl
    unfold Raised
    simp only [Bool.or_eq_true, or_assoc]

end Regression

/-! ## The text of a comparison -/

@[simp]
theorem renderLines_cons (colour : Bool) (line : Line) (lines : List Line) :
    renderLines colour (line :: lines) = renderLine colour line ++ renderLines colour lines := by
  unfold renderLines
  rw [List.map_cons, String.join_cons]

@[simp]
theorem renderLine_plainLine (colour : Bool) (text : String) :
    renderLine colour (plainLine text) = text ++ "\n" := by
  unfold renderLine plainLine
  rw [List.map_singleton, String.join_cons, String.join_nil, String.append_empty]
  rfl

@[simp]
theorem renderLine_blankLine (colour : Bool) : renderLine colour blankLine = "\n" := rfl

namespace Comparison

/-- The text of a comparison sums it up in these words, below its title. -/
def SumsUpAs (c : Comparison) (words : String) : Prop :=
  ∃ rest, c.toText = "Performance Comparison Report\n============================\n\n" ++
    "Overall Status: " ++ words ++ "\n" ++ rest

theorem sumsUpAs_of_detected (c : Comparison) :
    c.SumsUpAs (if c.regression.detected then "REGRESSION DETECTED" else "NO REGRESSION") := by
  refine ⟨renderLines false (blankLine :: c.allMetricLines ++ blankLine ::
    plainLine "Recommendations:" ::
      c.regression.findings.map fun finding => plainLine s!"  - {finding.message}"), ?_⟩
  have htitle : "Performance Comparison Report\n============================\n\n" =
      "Performance Comparison Report" ++ ("\n" ++ (rule 28 ++ ("\n" ++ "\n"))) := by decide
  unfold toText report overallStatus
  simp only [List.cons_append, renderLines_cons, renderLine_plainLine, renderLine_blankLine, htitle,
    String.append_assoc]

/-- A text does not sum up the same comparison in two ways. -/
theorem SumsUpAs.not_both {c : Comparison} (hyes : c.SumsUpAs "REGRESSION DETECTED") :
    ¬ c.SumsUpAs "NO REGRESSION" := by
  rintro ⟨rest, hrest⟩
  obtain ⟨rest', hrest'⟩ := hyes
  rw [hrest'] at hrest
  simp only [String.append_assoc, String.append_right_inj] at hrest
  -- the words differ in their first letter
  have hletters := congrArg (fun text => text.toList.head?) hrest
  simp at hletters

theorem sumsUpAs_iff (c : Comparison) :
    (c.SumsUpAs "REGRESSION DETECTED" ↔ c.regression.detected = true) ∧
      (c.SumsUpAs "NO REGRESSION" ↔ c.regression.detected = false) := by
  have hsays := c.sumsUpAs_of_detected
  cases hdetected : c.regression.detected with
  | true =>
      rw [hdetected, if_pos rfl] at hsays
      exact ⟨iff_of_true hsays rfl, iff_of_false hsays.not_both Bool.noConfusion⟩
  | false =>
      rw [hdetected, if_neg Bool.false_ne_true] at hsays
      exact ⟨iff_of_false (fun h => h.not_both hsays) Bool.noConfusion, iff_of_true hsays rfl⟩

end Comparison

/-! ## Assessments -/

namespace Assessment

/-- The verdict on a run is the same wherever it is told. -/
structure TellsVerdict (e : Assessment) : Prop where
  pass_line : e.isAccepted = true ↔ passLine ∈ e.gateLines
  no_fail_line : e.isAccepted = true ↔ ∀ why, failLine why ∉ e.gateLines
  no_reason : e.isAccepted = true ↔ e.gate.reasons = [] ∧ e.failure? = none
  accepted : e.isAccepted = true → (e.status = .pass ∨ e.status = .partly) ∧
    ∀ now, (e.summary now).regressionDetected = false
  rejected : e.isAccepted = false →
    (∃ f, e.failure? = some f ∧ f.message ∈ e.recommendations) ∨
      ∃ reason ∈ e.gate.reasons, reason.message ∈ e.recommendations
  /-- The status stands for a failure, and its message comes first. -/
  failure : ∀ f, e.failure? = some f ↔
    (e.status = .error ∧ f = .noResults) ∨ (e.status = .failed ∧ f = .allFailed)
  recommendations_eq : e.recommendations = e.failure?.toList.map RunFailure.message ++
    e.findings.map Finding.message ++ e.gate.reasons.map Reason.message

/-- What a comparison found is told the same by the gate, its text and its findings. -/
structure TellsComparison (e : Assessment) (c : Comparison) : Prop where
  comparison : e.comparison = some c
  detected : e.gate.regressionDetected = c.regression.detected
  text_detected : c.SumsUpAs "REGRESSION DETECTED" ↔ c.regression.detected = true
  text_not_detected : c.SumsUpAs "NO REGRESSION" ↔ c.regression.detected = false
  flags : c.regression.TellsFindings e.current.successful e.thresholds.regression
  findings : e.findings = c.regression.findings

theorem isAccepted_iff_no_reason (e : Assessment) :
    e.isAccepted = true ↔ e.gate.reasons = [] ∧ e.failure? = none := by
  unfold isAccepted GateVerdict.passed
  rw [Bool.and_eq_true, List.isEmpty_iff, Option.isNone_iff_eq_none]

theorem passLine_mem_gateLines_iff (e : Assessment) :
    passLine ∈ e.gateLines ↔ e.isAccepted = true := by
  rw [isAccepted_iff_no_reason, gateLines, GateVerdict.passLine_mem_lines_iff,
    Option.map_eq_none_iff, and_comm]

theorem failLine_not_mem_gateLines_iff (e : Assessment) :
    (∀ why, failLine why ∉ e.gateLines) ↔ e.isAccepted = true := by
  rw [isAccepted_iff_no_reason, ← not_exists, gateLines, GateVerdict.exists_failLine_mem_lines_iff,
    not_or, Classical.not_not, Classical.not_not, Option.map_eq_none_iff, and_comm]

/-- What rejects a run is among the recommendations. -/
theorem exists_recommendation_of_rejected {e : Assessment} (h : e.isAccepted = false) :
    (∃ f, e.failure? = some f ∧ f.message ∈ e.recommendations) ∨
      ∃ reason ∈ e.gate.reasons, reason.message ∈ e.recommendations := by
  unfold recommendations
  cases hfailure : e.failure? with
  | some f =>
      exact .inl ⟨f, rfl, List.mem_append_left _ (List.mem_append_left _ List.mem_cons_self)⟩
  | none =>
      have hreasons : e.gate.reasons ≠ [] := fun hnil =>
        Bool.false_ne_true (h.symm.trans (e.isAccepted_iff_no_reason.mpr ⟨hnil, hfailure⟩))
      obtain ⟨reason, hmem⟩ := List.exists_mem_of_ne_nil _ hreasons
      exact .inr ⟨reason, hmem, List.mem_append_right _ (List.mem_map_of_mem hmem)⟩

/-- An accepted run has neither failed nor regressed. -/
theorem judge_status_of_isAccepted {results : Results} {comparison : Option Comparison}
    {detected : Bool} {t : Thresholds} {e : Assessment}
    (he : e = judge results comparison detected t) (h : e.isAccepted = true) :
    (e.status = .pass ∨ e.status = .partly) ∧
      ∀ now, (e.summary now).regressionDetected = false := by
  have hdetected : e.regressionDetected = false := by
    subst he
    exact ((judge_isAccepted_iff _ _ _ _).mp h).2
  have hstatus : e.status = .pass ∨ e.status = .partly := by
    have hfailure := (e.isAccepted_iff_no_reason.mp h).2
    unfold failure? status at hfailure
    unfold status
    rw [hdetected] at hfailure ⊢
    exact Status.pass_or_partly_of_no_failure hfailure
  refine ⟨hstatus, fun now => ?_⟩
  unfold summary
  rw [hdetected, Bool.false_or, decide_eq_false_iff_not]
  rcases hstatus with hs | hs <;> rw [hs] <;> exact nofun

theorem judge_tellsVerdict (results : Results) (comparison : Option Comparison) (detected : Bool)
    (t : Thresholds) : (judge results comparison detected t).TellsVerdict where
  pass_line := (passLine_mem_gateLines_iff _).symm
  no_fail_line := (failLine_not_mem_gateLines_iff _).symm
  no_reason := isAccepted_iff_no_reason _
  accepted := judge_status_of_isAccepted rfl
  rejected := exists_recommendation_of_rejected
  failure _ := Status.failure?_eq_some_iff
  recommendations_eq := rfl

theorem ofResults_tellsComparison (results baseline : Results) (t : Thresholds) :
    (ofResults results (some baseline) t).TellsComparison
      (.of (.ofResults baseline) (.ofResults results) t.regression) where
  comparison := rfl
  detected := rfl
  text_detected := (Comparison.sumsUpAs_iff _).1
  text_not_detected := (Comparison.sumsUpAs_iff _).2
  flags := Regression.between_tellsFindings _ _ _
  findings := rfl

/--
**The verdict on a run is the same wherever it is told.** That holds of results that are compared
here and of those that were compared before. Against a baseline, the comparison with it tells the
same too; without one there is no comparison, and no regression either unless one was reported.
-/
theorem tellsVerdict (results : Results) (t : Thresholds) :
    (∀ baseline, (ofResults results baseline t).TellsVerdict) ∧
    (∀ detected, (withFlag results detected t).TellsVerdict) ∧
    (∀ baseline, (ofResults results (some baseline) t).TellsComparison
      (.of (.ofResults baseline) (.ofResults results) t.regression)) ∧
    (ofResults results none t).comparison = none ∧
    (ofResults results none t).gate.regressionDetected = false ∧
    ∀ detected, (withFlag results detected t).comparison = none ∧
      (withFlag results detected t).gate.regressionDetected = detected := by
  refine ⟨fun baseline => ?_, fun detected => judge_tellsVerdict _ _ _ _, fun baseline =>
    ofResults_tellsComparison _ _ _, rfl, rfl, fun detected => ⟨rfl, rfl⟩⟩
  unfold ofResults
  exact judge_tellsVerdict _ _ _ _

end Assessment

end BenchGate
