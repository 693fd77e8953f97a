import BenchGate.Proofs.Loading
import BenchGate.Proofs.Promotion
import BenchGate.Proofs.Report
import BenchGate.Proofs.Verdict

/-!
# Runs against a baseline

A run settles its thresholds and loads its inputs, writes its report, and on acceptance promotes the
results if that is asked for. Whatever stops it before, the report is all that it has written.

A report cannot reach the baseline, unless one of its two files is meant to lie there: it is written
only if there is a baseline, so the baseline's location holds a file already, and making directories
leaves files alone. That is why the baseline changes in promotions of accepted results only.
-/

namespace BenchGate

open FileTree

variable {files s written after : FileTree} {k : Location} {x : Entry}

/-! ## The parts of a run -/

namespace RegressionArguments

variable {a : RegressionArguments} {t : Thresholds} {current : Results}
  {baseline : Option Results} {e : Assessment}

/-- Where a run writes its report. -/
def reportLocations (a : RegressionArguments) (files : FileTree) : List Location :=
  match a.outputDirectory with
  | none => []
  | some directory =>
    [comparisonFileName, comparisonTextFileName].map fun name =>
      files.locationOf (directory.join (.ofText name))

theorem keepsDirectories_writeReport (a : RegressionArguments) (files : FileTree)
    (e : Assessment) : files.KeepsDirectories (a.writeReport files e).1 := by
  unfold writeReport
  split
  · exact .refl files
  · exact Report.keepsDirectories_write _ _ _

theorem find?_writeReport (hk : files.find? k = some x) (hout : k ∉ a.reportLocations files) :
    (a.writeReport files e).1.find? k = some x := by
  unfold writeReport
  unfold reportLocations at hout
  split
  · exact hk
  · rename_i directory hdirectory
    rw [hdirectory] at hout
    refine Report.find?_write hk fun file hfile heq => hout ?_
    unfold Report.ofComparison at hfile
    split at hfile
    · cases hfile
    · rw [List.mem_map]
      rcases List.mem_cons.mp hfile with rfl | hsecond
      · exact ⟨_, List.mem_cons_self, heq.symm⟩
      · rw [List.mem_singleton.mp hsecond] at heq
        exact ⟨_, List.mem_cons_of_mem _ List.mem_cons_self, heq.symm⟩

theorem writeReport_of_comparison (a : RegressionArguments) (files : FileTree)
    (h : e.comparison = none) : a.writeReport files e = (files, .ok ()) := by
  unfold writeReport
  split
  · rfl
  · rw [Report.ofComparison, h]
    exact Report.write_nil _ _

theorem writeReport_of_outputDirectory (files : FileTree) (e : Assessment)
    (h : a.outputDirectory = none) : a.writeReport files e = (files, .ok ()) := by
  unfold writeReport
  rw [h]

/-- The thresholds are settled and the inputs are loaded. -/
structure Settled (a : RegressionArguments) (files : FileTree) (t : Thresholds)
    (current : Results) (baseline : Option Results) : Prop where
  settles : a.overrides.thresholds files = .ok t
  loadsCurrent : Results.ofFile files .current a.current = .ok current
  loadsBaseline : Results.baselineOfFile? files a.baseline = .ok baseline

/-- The verdict is known, and the report on it is written. -/
structure Reported (a : RegressionArguments) (files : FileTree) (t : Thresholds)
    (current : Results) (baseline : Option Results) (written : FileTree) : Prop
    extends a.Settled files t current baseline where
  report : a.writeReport files (.ofResults current baseline t) = (written, .ok ())

/-- The results are loaded and accepted. -/
def Accepts (a : RegressionArguments) (files : FileTree) : Prop :=
  ∃ t current baseline, a.Settled files t current baseline ∧
    (Assessment.ofResults current baseline t).isAccepted = true

/-! ## The ends of a run -/

/-- How a run can end: with which exit code, and with which files. -/
inductive RunEnd (a : RegressionArguments) (files : FileTree) : Nat → FileTree → Prop where
  /-- The thresholds or an input cannot be loaded. -/
  | stopped :
      (∀ t current baseline, ¬ a.Settled files t current baseline) →
      RunEnd a files Outcome.rejectedCode files
  | unreported {t : Thresholds} {current : Results} {baseline : Option Results}
      {written : FileTree} {error : ReportError} :
      a.Settled files t current baseline →
      a.writeReport files (.ofResults current baseline t) = (written, .error error) →
      RunEnd a files Outcome.rejectedCode written
  | rejected {t : Thresholds} {current : Results} {baseline : Option Results}
      {written : FileTree} :
      a.Reported files t current baseline written →
      (Assessment.ofResults current baseline t).isAccepted = false →
      RunEnd a files Outcome.rejectedCode written
  | accepted {t : Thresholds} {current : Results} {baseline : Option Results}
      {written : FileTree} :
      a.Reported files t current baseline written →
      (Assessment.ofResults current baseline t).isAccepted = true →
      a.promoteBaseline = false →
      RunEnd a files Outcome.acceptedCode written
  | unpromoted {t : Thresholds} {current : Results} {baseline : Option Results}
      {written after : FileTree} {error : PromotionError} :
      a.Reported files t current baseline written →
      (Assessment.ofResults current baseline t).isAccepted = true →
      a.promoteBaseline = true →
      promote written a.current a.baseline = (after, .error error) →
      RunEnd a files Outcome.rejectedCode after
  | promoted {t : Thresholds} {current : Results} {baseline : Option Results}
      {written after : FileTree} :
      a.Reported files t current baseline written →
      (Assessment.ofResults current baseline t).isAccepted = true →
      a.promoteBaseline = true →
      promote written a.current a.baseline = (after, .ok ()) →
      RunEnd a files Outcome.acceptedCode after

theorem accept_ends (h : a.Reported files t current baseline written)
    (haccepted : (Assessment.ofResults current baseline t).isAccepted = true) :
    a.RunEnd files (a.accept written).exitCode (a.accept written).files := by
  unfold accept
  split
  · rename_i hpromote
    split
    · rename_i after hok
      exact .promoted h haccepted hpromote hok
    · rename_i after error herror
      exact .unpromoted h haccepted hpromote herror
  · rename_i hkeep
    exact .accepted h haccepted (by simpa using hkeep)

theorem finish_ends (h : a.Settled files t current baseline) :
    let o := a.finish files (.ofResults current baseline t)
    a.RunEnd files o.exitCode o.files := by
  unfold finish
  dsimp only
  split
  · rename_i written error hreport
    exact .unreported h hreport
  · rename_i written hreport
    split
    · rename_i haccepted
      exact accept_ends ⟨h, hreport⟩ haccepted
    · rename_i hrejected
      exact .rejected ⟨h, hreport⟩ (by simpa using hrejected)

/-- **A run ends in one of six ways.** -/
theorem run_ends (a : RegressionArguments) (files : FileTree) :
    a.RunEnd files (a.run files).exitCode (a.run files).files := by
  unfold run
  split
  · rename_i error herror
    exact .stopped fun _ _ _ h => by cases h.settles.symm.trans herror
  · rename_i t hthresholds
    split
    · rename_i error herror
      exact .stopped fun _ _ _ h => by cases h.loadsCurrent.symm.trans herror
    · rename_i current hcurrent
      split
      · rename_i error herror
        exact .stopped fun _ _ _ h => by cases h.loadsBaseline.symm.trans herror
      · rename_i baseline hbaseline
        exact finish_ends ⟨hthresholds, hcurrent, hbaseline⟩

/-! ## The baseline under a run -/

theorem Settled.exists_current (h : a.Settled files t current baseline) :
    ∃ v content, files.readFile a.current = .ok content ∧
      (∀ {s : FileTree} {q : Path}, s.readFile q = .ok content → s.readJson q = .ok v) ∧
      Results.ofJson .current v = current := by
  obtain ⟨v, hv, hcurrent⟩ := Results.ofFile_eq_ok_iff.mp h.loadsCurrent
  obtain ⟨content, hread, hagain⟩ := exists_bytes_of_readJson hv
  exact ⟨v, content, hread, hagain, hcurrent⟩

/-- Where there is a baseline to compare with, there is a file. -/
theorem Settled.exists_file {b : Results} (h : a.Settled files t current (some b)) :
    ∃ bytes, files.find? (files.locationOf a.baseline) = some (.file bytes) := by
  obtain ⟨v, hv, -⟩ :=
    Results.ofFile_eq_ok_iff.mp (Results.baselineOfFile?_eq_some_iff.mp h.loadsBaseline)
  obtain ⟨bytes, hread, -⟩ := exists_bytes_of_readJson hv
  exact ⟨bytes, (readFile_eq_ok_iff.mp hread).2⟩

/-- **A report leaves the baseline alone**, unless it is meant to be written there. -/
theorem Settled.find?_baseline {r : Except ReportError Unit}
    (h : a.Settled files t current baseline)
    (hreport : a.writeReport files (.ofResults current baseline t) = (written, r))
    (hout : files.locationOf a.baseline ∉ a.reportLocations files) :
    written.find? (files.locationOf a.baseline) = files.find? (files.locationOf a.baseline) := by
  cases baseline with
  | none =>
      rw [writeReport_of_comparison a files rfl] at hreport
      cases hreport
      rfl
  | some b =>
      obtain ⟨bytes, hfile⟩ := h.exists_file
      have hkept := find?_writeReport (e := .ofResults current (some b) t) hfile hout
      rw [hreport] at hkept
      exact hkept.trans hfile.symm

theorem Reported.keepsDirectories (h : a.Reported files t current baseline written) :
    files.KeepsDirectories written := by
  have hkeep := keepsDirectories_writeReport a files (.ofResults current baseline t)
  rwa [h.report] at hkeep

theorem Reported.readFile_current (h : a.Reported files t current baseline written)
    (hout : files.locationOf a.current ∉ a.reportLocations files) :
    written.readFile a.current = files.readFile a.current := by
  obtain ⟨v, content, hread, -⟩ := h.exists_current
  have hkept := find?_writeReport (e := .ofResults current baseline t)
    (readFile_eq_ok_iff.mp hread).2 hout
  rw [h.report] at hkept
  rw [hread]
  exact readFile_of_keepsDirectories h.keepsDirectories hread hkept

/-- What a promotion does to the baseline is the same whether the report is written or not. -/
theorem Reported.keepsBaseline (h : a.Reported files t current baseline written)
    (hout : files.locationOf a.baseline ∉ a.reportLocations files)
    (hkept : written.KeepsBaseline after a.baseline) : files.KeepsBaseline after a.baseline := by
  have hkeep := h.keepsDirectories
  unfold FileTree.KeepsBaseline FileTree.GainsDirectory at hkept ⊢
  rwa [hkeep.locationOf, hkeep.home, h.find?_baseline h.report hout] at hkept

theorem Reported.hasPromoted (h : a.Reported files t current baseline written)
    (hout : files.locationOf a.current ∉ a.reportLocations files)
    (hpromoted : written.HasPromoted after a.current a.baseline) :
    files.HasPromoted after a.current a.baseline := by
  unfold FileTree.HasPromoted at hpromoted ⊢
  rwa [h.keepsDirectories.locationOf, h.readFile_current hout] at hpromoted

/--
**Only an accepted run replaces the baseline.** After a run with promotion that exits with zero, the
results were accepted, and the baseline has the bytes they had at the start. After any other run its
location holds what it held before. Only a promotion that failed can have made a directory there,
where nothing was, of a path that passes its own end.
-/
theorem run_baseline (a : RegressionArguments) (files : FileTree)
    (hname : a.baseline.EndsInName)
    (hbaseline : files.locationOf a.baseline ∉ a.reportLocations files)
    (hcurrent : files.locationOf a.current ∉ a.reportLocations files) :
    let here := files.locationOf a.baseline
    let o := a.run files
    (a.promoteBaseline = true ∧ o.exitCode = 0 →
      a.Accepts files ∧ files.HasPromoted o.files a.current a.baseline) ∧
    (¬ (a.promoteBaseline = true ∧ o.exitCode = 0) →
      o.files.find? here = files.find? here ∨
        a.promoteBaseline = true ∧ here ∈ a.baseline.waypoints files.workingDirectory ∧
          files.GainsDirectory o.files here) := by
  intro here o
  have hend : a.RunEnd files o.exitCode o.files := a.run_ends files
  generalize o.exitCode = code at hend ⊢
  generalize o.files = after at hend ⊢
  cases hend with
  | stopped _ => exact ⟨fun h => absurd h.2 (by decide), fun _ => .inl rfl⟩
  | unreported h hreport =>
      exact ⟨fun h => absurd h.2 (by decide), fun _ => .inl (h.find?_baseline hreport hbaseline)⟩
  | rejected h _ =>
      exact ⟨fun h => absurd h.2 (by decide), fun _ => .inl (h.find?_baseline h.report hbaseline)⟩
  | accepted h _ hkeep =>
      refine ⟨fun h => ?_, fun _ => .inl (h.find?_baseline h.report hbaseline)⟩
      exact absurd (hkeep.symm.trans h.1) (by decide)
  | unpromoted h _ hpromote herror =>
      refine ⟨fun h => absurd h.2 (by decide), fun _ => ?_⟩
      rcases h.keepsBaseline hbaseline (keepsBaseline_of_promote_error hname herror) with
        hsame | ⟨hpasses, hgains⟩
      · exact .inl hsame
      · exact .inr ⟨hpromote, hpasses, hgains⟩
  | promoted h haccepted hpromote hok =>
      refine ⟨fun _ => ⟨⟨_, _, _, h.toSettled, haccepted⟩, ?_⟩, fun hnot => ?_⟩
      · exact h.hasPromoted hcurrent (hasPromoted_of_promote hok)
      · exact absurd ⟨hpromote, rfl⟩ hnot

/-- A run with promotion and without a report, perhaps with a configuration. -/
def promoting (baseline current : String) (config : Option String := none) :
    RegressionArguments where
  baseline := .ofText baseline
  current := .ofText current
  outputDirectory := none
  promoteBaseline := true
  overrides := { config := config.map .ofText }
  verbosity := ⟨false, false⟩

/-- Totals of a run with some successes and no failures. -/
def successesText (n : Nat) : String :=
  s!"\x7b\"successful_benchmarks\":{n},\"total_benchmarks\":{n}\x7d"

/-- A run that reports into a directory of its own and replaces an old baseline. -/
theorem run_baseline_replaced :
    let a := { promoting "b.json" "current.json" with outputDirectory := some (.ofText "out") }
    let files := FileTree.ofTexts [("b.json", successesText 6), ("current.json", successesText 5)]
    (a.run files).exitCode = 0 ∧
      (a.run files).files.find? ["b.json"] = some (.file (successesText 5).toUTF8) := by
  intro a files
  have hexit : (a.run files).exitCode = 0 := by decide +kernel
  obtain ⟨-, content, hread, hnew⟩ := (run_baseline a files (by decide +kernel)
    (by decide +kernel) (by decide +kernel)).1 ⟨rfl, hexit⟩
  have hhere : files.locationOf a.baseline = ["b.json"] := by decide +kernel
  have hcurrent : files.find? (files.locationOf a.current) =
      some (.file (successesText 5).toUTF8) := by decide +kernel
  rw [(readFile_eq_ok_iff.mp hread).2] at hcurrent
  rw [hhere] at hnew
  exact ⟨hexit, hnew.trans hcurrent⟩

/-- The path `a/../a` passes its own end, so the run fails and leaves a directory there. -/
theorem run_makes_directory_of_baseline :
    let a := promoting "a/../a" "current.json"
    let files := FileTree.ofTexts [("current.json", successesText 1)]
    a.baseline.EndsInName ∧ files.locationOf a.baseline ∉ a.reportLocations files ∧
      files.locationOf a.current ∉ a.reportLocations files ∧ (a.run files).exitCode = 1 ∧
      files.find? (files.locationOf a.baseline) = none ∧
      (a.run files).files.find? (files.locationOf a.baseline) = some .directory := by
  decide +kernel

/-! ## Running again -/

/-- Without a report to write and with a promotion that goes through, the verdict decides. -/
theorem exitCode_run_iff (h : a.Settled files t current baseline)
    (hout : a.outputDirectory = none)
    (hpromote : ∃ after, promote files a.current a.baseline = (after, .ok ())) :
    (a.run files).exitCode = 0 ↔ (Assessment.ofResults current baseline t).isAccepted = true := by
  obtain ⟨after, hok⟩ := hpromote
  unfold run
  rw [h.settles]
  dsimp only
  rw [h.loadsCurrent]
  dsimp only
  rw [h.loadsBaseline]
  dsimp only
  rw [Outcome.exitCode_afterErrors, finish, Outcome.exitCode_after,
    writeReport_of_outputDirectory _ _ hout]
  dsimp only
  split
  · rename_i haccepted
    rw [accept, hok, Outcome.exitCode_after]
    simp only [haccepted, iff_true]
    split <;> rfl
  · rename_i hrejected
    simp [hrejected, reject, Outcome.verdict, Outcome.rejectedCode]

/-- After its promotion a run is loaded with the same thresholds, and the results against
themselves. -/
theorem Settled.again (h : a.Settled files t current baseline)
    (hok : promote files a.current a.baseline = (after, .ok ()))
    (hcurrent : files.locationOf a.current ≠ files.locationOf (stagingPath a.baseline))
    (hconfig : ∀ path, a.overrides.config = some path →
      files.locationOf path ≠ files.locationOf a.baseline ∧
        files.locationOf path ≠ files.locationOf (stagingPath a.baseline)) :
    ∃ same, a.Settled after t current (some same) ∧
      Metrics.ofResults same = Metrics.ofResults current := by
  obtain ⟨v, content, hread, hagain, rfl⟩ := h.exists_current
  have hcurrent' := hagain (readFile_current_of_promote hok hcurrent hread)
  have hbaseline := hagain (readFile_baseline_of_promote hok hread)
  refine ⟨.ofJson .baseline v, ⟨?_, ?_, ?_⟩, Metrics.ofDocument_origin .baseline v⟩
  · refine Overrides.thresholds_of_readFile h.settles fun path bytes hpath hbytes => ?_
    exact readFile_of_promote hok (hconfig path hpath).1 (hconfig path hpath).2 hbytes
  · exact Results.ofFile_eq_ok_iff.mpr ⟨v, hcurrent', rfl⟩
  · exact Results.baselineOfFile?_eq_some_iff.mpr (Results.ofFile_eq_ok_iff.mpr ⟨v, hbaseline, rfl⟩)

/-- An accepted run is accepted against itself exactly when it has enough successes. -/
theorem isAccepted_self_iff {same : Results} (ht : t.verify = .ok ())
    (haccepted : (Assessment.ofResults current baseline t).isAccepted = true)
    (hsame : Metrics.ofResults same = Metrics.ofResults current) :
    (Assessment.ofResults current (some same) t).isAccepted = true ↔
      t.regression.minBenchmarks ≤ (Metrics.ofResults current).successful := by
  have hpasses := ((Assessment.ofResults_isAccepted_iff current baseline t).mp haccepted).1
  rw [Assessment.ofResults_isAccepted_iff, and_iff_right hpasses]
  rw [← Metrics.tolerable_self_iff (Metrics.isFinite_failureRate current)
    (Thresholds.inRange_of_verify ht)]
  constructor
  · intro h
    have htolerable := h same rfl
    rwa [hsame] at htolerable
  · intro h b hb
    cases hb
    rwa [hsame]

/--
**An accepted and promoted run is accepted again if it has enough successes.** The second run
compares the results with themselves, so the least number of successes is all that can reject them.
The first run has checked that already if it had a baseline, and not if it was the first of all.
-/
theorem run_again (a : RegressionArguments) (files : FileTree)
    (hpromote : a.promoteBaseline = true) (hout : a.outputDirectory = none)
    (hcurrent : files.locationOf a.current ≠ files.locationOf (stagingPath a.baseline))
    (hconfig : ∀ path, a.overrides.config = some path →
      files.locationOf path ≠ files.locationOf a.baseline ∧
        files.locationOf path ≠ files.locationOf (stagingPath a.baseline))
    (hexit : (a.run files).exitCode = 0) :
    ∃ t current baseline, a.Settled files t current baseline ∧
      ((a.run (a.run files).files).exitCode = 0 ↔
        t.regression.minBenchmarks ≤ (Metrics.ofResults current).successful) ∧
      (baseline.isSome = true → (a.run (a.run files).files).exitCode = 0) := by
  have hend : a.RunEnd files (a.run files).exitCode (a.run files).files := a.run_ends files
  rw [hexit] at hend
  generalize (a.run files).files = after at hend ⊢
  cases hend with
  | accepted _ _ hkeep => exact absurd (hkeep.symm.trans hpromote) (by decide)
  | @promoted t current baseline written _ h haccepted _ hok =>
      have hreport := h.report
      rw [writeReport_of_outputDirectory files _ hout] at hreport
      obtain rfl : files = written := congrArg Prod.fst hreport
      obtain ⟨same, hagain, hsame⟩ := h.toSettled.again hok hcurrent hconfig
      obtain ⟨v, content, hread, -⟩ := hagain.exists_current
      have hverify := Overrides.verify_of_thresholds h.settles
      have hiff : (a.run after).exitCode = 0 ↔
          t.regression.minBenchmarks ≤ (Metrics.ofResults current).successful :=
        (exitCode_run_iff hagain hout (exists_promote_again hok hread)).trans
          (isAccepted_self_iff hverify haccepted hsame)
      refine ⟨t, current, baseline, h.toSettled, hiff, fun hsome => hiff.mpr ?_⟩
      obtain ⟨b, rfl⟩ := Option.isSome_iff_exists.mp hsome
      exact (((Assessment.ofResults_isAccepted_iff current _ t).mp haccepted).2 b rfl).enough

/-- Five successes replace six and are accepted again. -/
theorem run_again_replaced :
    let a := promoting "b.json" "current.json"
    let files := FileTree.ofTexts [("b.json", successesText 6), ("current.json", successesText 5)]
    (a.run files).exitCode = 0 ∧ (a.run (a.run files).files).exitCode = 0 := by
  intro a files
  have hexit : (a.run files).exitCode = 0 := by decide +kernel
  have hconfig : a.overrides.config = none := rfl
  obtain ⟨t, current, baseline, h, -, hagain⟩ := run_again a files rfl rfl (by decide +kernel)
    (fun path hpath => by rw [hconfig] at hpath; cases hpath) hexit
  refine ⟨hexit, hagain ?_⟩
  -- the first run had a baseline
  have hloaded : ((Results.baselineOfFile? files a.baseline).toOption.bind id).isSome = true := by
    decide +kernel
  rw [h.loadsBaseline] at hloaded
  exact hloaded

/-- A run with promotion and without a report, of results with a path of their own, that is accepted
and then rejected. -/
def RejectedAgain (a : RegressionArguments) (files : FileTree) : Prop :=
  (a.promoteBaseline = true ∧ a.outputDirectory = none) ∧
    (a.current ≠ a.baseline ∧ a.current ≠ stagingPath a.baseline) ∧
    (a.run files).exitCode = 0 ∧ (a.run (a.run files).files).exitCode = 1

instance (a : RegressionArguments) (files : FileTree) : Decidable (a.RejectedAgain files) :=
  inferInstanceAs (Decidable (_ ∧ _ ∧ _ ∧ _))

/-- A first run without a baseline does not count the successes, and the second one does. A run with
its configuration in the baseline or in the staging file, or with its results in the staging file
under another path, takes them away from itself. -/
theorem run_again_rejected :
    (promoting "b.json" "current.json").RejectedAgain
        (.ofTexts [("current.json", successesText 1)]) ∧
      (promoting "b.json" "current.json" (some "b.json")).RejectedAgain
        (.ofTexts [("b.json", "\x7b\x7d"), ("current.json", successesText 5)]) ∧
      (promoting "b.json" "current.json" (some "b.json.tmp")).RejectedAgain
        (.ofTexts [("b.json.tmp", "\x7b\x7d"), ("current.json", successesText 5)]) ∧
      (promoting "b.json" "./b.json.tmp").RejectedAgain
        (.ofTexts [("b.json.tmp", successesText 5)]) := by
  decide +kernel

end RegressionArguments

end BenchGate
