import BenchGate.Proofs.AnalyzerRun
import BenchGate.Proofs.RegressionRun

/-!
# Exit codes

The three commands keep one contract. A command settles its thresholds and loads its inputs,
assesses them, writes its report, and promotes the results. It exits with zero when all of that went
through and the run is accepted, and with one in every other case.

Nothing is written before everything is loaded, so a run that stops over its thresholds or an input
leaves all files as they were. A baseline counts as absent only when nothing exists at its path: a
directory there, or bytes that are not JSON, stop the run.

What the commands do differently is said once, by the definitions on jobs: what they load, how they
assess it, and what they write.
-/

namespace BenchGate

open FileTree

/-! ## Jobs -/

/-- What a command line asks for. -/
inductive Job where
  | analysis (a : AnalyzerArguments)
  | comparison (a : RegressionArguments)
  | gating (a : GateArguments)

namespace Job

/-- Reads the words of a command line. -/
def read (command : Command) (words : List String) : Except UsageStop Job :=
  match command with
  | .analyzer => return analysis (← AnalyzerArguments.read words)
  | .regression => return comparison (← RegressionArguments.read words)
  | .gate => return gating (← GateArguments.read words)

/-- The command that does a job. -/
def command : Job → Command
  | analysis _ => .analyzer
  | comparison _ => .regression
  | gating _ => .gate

/-- Does what was asked for. -/
def run (files : FileTree) (now : Timestamp) : Job → Outcome
  | analysis a => a.run files now
  | comparison a => a.run files
  | gating a => a.run files

/-- The overrides of the thresholds. -/
def overrides : Job → Overrides
  | analysis a => a.overrides
  | comparison a => a.overrides
  | gating a => a.overrides

/-- The results under assessment. Files of a directory that hold no list of records are skipped. -/
def loadCurrent (files : FileTree) : Job → Except InputError Results
  | analysis a => a.currentResults files
  | comparison a => Results.ofFile files .current a.current
  | gating a => Results.ofFile files .current a.summaryPath

/-- The path of the baseline. The gate does not compare. -/
def baselinePath? : Job → Option Path
  | analysis a => some a.baselinePath
  | comparison a => some a.baseline
  | gating _ => none

/-- The baseline, if there is one. -/
def loadBaseline (files : FileTree) (j : Job) : Except InputError (Option Results) :=
  match j.baselinePath? with
  | some path => Results.baselineOfFile? files path
  | none => .ok none

/-- The assessment of what was loaded. -/
def assess (current : Results) (baseline : Option Results) (t : Thresholds) : Job → Assessment
  | gating _ => .ofReported current t
  | _ => .ofResults current baseline t

/-- The report that is asked for, and its directory. -/
def report? (e : Assessment) (now : Timestamp) : Job → Option (Path × Report)
  | analysis a => some (a.outputDirectory, .full e now)
  | comparison a => a.outputDirectory.map fun directory => (directory, .ofComparison e)
  | gating _ => none

/-- Writes the report that is asked for. -/
def writeReport (j : Job) (files : FileTree) (e : Assessment) (now : Timestamp) :
    FileTree × Except ReportError Unit :=
  match j.report? e now with
  | some (directory, report) => report.write files directory
  | none => (files, .ok ())

/-- The results to promote and the baseline that they replace, if that is asked for. -/
def promotion? : Job → Option (Path × Path)
  | comparison a => if a.promoteBaseline then some (a.current, a.baseline) else none
  | _ => none

/-- Promotes the results if that is asked for. -/
def promoteResults (j : Job) (files : FileTree) : FileTree × Except PromotionError Unit :=
  match j.promotion? with
  | some (current, baseline) => promote files current baseline
  | none => (files, .ok ())

end Job

theorem Command.run_eq (command : Command) (words : List String) (files : FileTree)
    (now : Timestamp) :
    command.run words files now = (do return (← Job.read command words).run files now) := by
  cases command with
  | analyzer =>
      unfold run Job.read
      cases AnalyzerArguments.read words <;> rfl
  | regression =>
      unfold run Job.read
      cases RegressionArguments.read words <;> rfl
  | gate =>
      unfold run Job.read
      cases GateArguments.read words <;> rfl

theorem Job.command_of_read {command : Command} {words : List String} {j : Job}
    (h : Job.read command words = .ok j) : j.command = command := by
  cases command with
  | analyzer =>
      obtain ⟨a, -, hjob⟩ := exists_ok_of_bind h
      cases hjob
      rfl
  | regression =>
      obtain ⟨a, -, hjob⟩ := exists_ok_of_bind h
      cases hjob
      rfl
  | gate =>
      obtain ⟨a, -, hjob⟩ := exists_ok_of_bind h
      cases hjob
      rfl

namespace Job

variable {j : Job} {files written after : FileTree} {now : Timestamp} {t t' : Thresholds}
  {current current' : Results} {baseline baseline' : Option Results} {code : Nat}

theorem writeReport_of_report? {e : Assessment} {directory : Path} {report : Report}
    (h : j.report? e now = some (directory, report)) :
    j.writeReport files e now = report.write files directory := by
  unfold writeReport
  rw [h]

theorem writeReport_of_no_report {e : Assessment} (h : j.report? e now = none) :
    j.writeReport files e now = (files, .ok ()) := by
  unfold writeReport
  rw [h]

theorem promoteResults_of_promotion? {source target : Path}
    (h : j.promotion? = some (source, target)) :
    j.promoteResults files = promote files source target := by
  unfold promoteResults
  rw [h]

theorem promoteResults_of_no_promotion (h : j.promotion? = none) :
    j.promoteResults files = (files, .ok ()) := by
  unfold promoteResults
  rw [h]

/-! ## Loading -/

/-- The thresholds are settled and the inputs are loaded. -/
structure Settled (j : Job) (files : FileTree) (t : Thresholds) (current : Results)
    (baseline : Option Results) : Prop where
  settles : j.overrides.thresholds files = .ok t
  loadsCurrent : j.loadCurrent files = .ok current
  loadsBaseline : j.loadBaseline files = .ok baseline

theorem Settled.unique (h : j.Settled files t current baseline)
    (h' : j.Settled files t' current' baseline') :
    t = t' ∧ current = current' ∧ baseline = baseline' :=
  ⟨Except.ok.inj (h.settles.symm.trans h'.settles),
    Except.ok.inj (h.loadsCurrent.symm.trans h'.loadsCurrent),
    Except.ok.inj (h.loadsBaseline.symm.trans h'.loadsBaseline)⟩

/-- There are no thresholds, or an input cannot be read or parsed. -/
def Stops (j : Job) (files : FileTree) : Prop :=
  (∃ error, j.overrides.thresholds files = .error error) ∨
    (∃ error, j.loadCurrent files = .error error) ∨
    ∃ path error, j.baselinePath? = some path ∧ files.pathExists path = true ∧
      files.readJson path = .error error

theorem Stops.not_settled (h : j.Stops files) : ¬ j.Settled files t current baseline := by
  intro hsettled
  rcases h with ⟨error, herror⟩ | ⟨error, herror⟩ | ⟨path, error, hpath, hexists, herror⟩
  · cases hsettled.settles.symm.trans herror
  · cases hsettled.loadsCurrent.symm.trans herror
  · have hloads := hsettled.loadsBaseline
    unfold loadBaseline at hloads
    rw [hpath] at hloads
    cases baseline with
    | none =>
        rw [Results.baselineOfFile?_eq_none_iff.mp hloads] at hexists
        cases hexists
    | some b =>
        obtain ⟨v, hv, -⟩ :=
          Results.ofFile_eq_ok_iff.mp (Results.baselineOfFile?_eq_some_iff.mp hloads)
        cases hv.symm.trans herror

/-- What is not loaded stops the job. -/
theorem stops_of_not_settled (h : ∀ t current baseline, ¬ j.Settled files t current baseline) :
    j.Stops files := by
  cases hsettles : j.overrides.thresholds files with
  | error error => exact .inl ⟨error, hsettles⟩
  | ok t =>
      cases hcurrent : j.loadCurrent files with
      | error error => exact .inr (.inl ⟨error, hcurrent⟩)
      | ok current =>
          have hloads : ∀ baseline, j.loadBaseline files ≠ .ok baseline :=
            fun baseline hbaseline => h t current baseline ⟨hsettles, hcurrent, hbaseline⟩
          unfold loadBaseline at hloads
          cases hpath : j.baselinePath? with
          | none =>
              rw [hpath] at hloads
              exact absurd rfl (hloads none)
          | some path =>
              rw [hpath] at hloads
              have hexists : files.pathExists path = true := by
                rw [← Bool.not_eq_false]
                exact fun hnot => hloads none (Results.baselineOfFile?_eq_none_iff.mpr hnot)
              cases hjson : files.readJson path with
              | error error => exact .inr (.inr ⟨path, error, hpath, hexists, hjson⟩)
              | ok v =>
                  refine absurd ?_ (hloads (some (.ofJson .baseline v)))
                  exact Results.baselineOfFile?_eq_some_iff.mpr
                    (Results.ofFile_eq_ok_iff.mpr ⟨v, hjson, rfl⟩)

/-! ## The ends of a job -/

/-- Everything that was asked for is done: the run is loaded and accepted, its report is written,
and the results are promoted. -/
structure Completes (j : Job) (files : FileTree) (now : Timestamp) (t : Thresholds)
    (current : Results) (baseline : Option Results) (written after : FileTree) : Prop
    extends j.Settled files t current baseline where
  accepted : (j.assess current baseline t).isAccepted = true
  reports : j.writeReport files (j.assess current baseline t) now = (written, .ok ())
  promotes : j.promoteResults written = (after, .ok ())

/-- How a job can end: with which exit code, and with which files. -/
inductive JobEnd (j : Job) (files : FileTree) (now : Timestamp) : Nat → FileTree → Prop where
  /-- The thresholds or an input cannot be loaded. -/
  | stopped :
      j.Stops files →
      JobEnd j files now Outcome.rejectedCode files
  | unreported {t : Thresholds} {current : Results} {baseline : Option Results}
      {written : FileTree} {error : ReportError} :
      j.Settled files t current baseline →
      j.writeReport files (j.assess current baseline t) now = (written, .error error) →
      JobEnd j files now Outcome.rejectedCode written
  | rejected {t : Thresholds} {current : Results} {baseline : Option Results}
      {written : FileTree} :
      j.Settled files t current baseline →
      (j.assess current baseline t).isAccepted = false →
      j.writeReport files (j.assess current baseline t) now = (written, .ok ()) →
      JobEnd j files now Outcome.rejectedCode written
  | unpromoted {t : Thresholds} {current : Results} {baseline : Option Results}
      {written after : FileTree} {error : PromotionError} :
      j.Settled files t current baseline →
      j.writeReport files (j.assess current baseline t) now = (written, .ok ()) →
      j.promoteResults written = (after, .error error) →
      JobEnd j files now Outcome.rejectedCode after
  | completed {t : Thresholds} {current : Results} {baseline : Option Results}
      {written after : FileTree} :
      j.Completes files now t current baseline written after →
      JobEnd j files now Outcome.acceptedCode after

theorem analysis_settled_iff {a : AnalyzerArguments} :
    (analysis a).Settled files t current baseline ↔ a.Settled files t current baseline :=
  ⟨fun h => ⟨h.settles, h.loadsCurrent, h.loadsBaseline⟩,
    fun h => ⟨h.settles, h.loadsCurrent, h.loadsBaseline⟩⟩

theorem comparison_settled_iff {a : RegressionArguments} :
    (comparison a).Settled files t current baseline ↔ a.Settled files t current baseline :=
  ⟨fun h => ⟨h.settles, h.loadsCurrent, h.loadsBaseline⟩,
    fun h => ⟨h.settles, h.loadsCurrent, h.loadsBaseline⟩⟩

theorem analysis_ends (a : AnalyzerArguments) (files : FileTree) (now : Timestamp) :
    (analysis a).JobEnd files now (a.run files now).exitCode (a.run files now).files := by
  by_cases h : ∃ t current baseline, a.Settled files t current baseline
  · obtain ⟨t, current, baseline, h⟩ := h
    have hsettled := analysis_settled_iff.mpr h
    obtain ⟨hfiles, hexit⟩ := AnalyzerArguments.run_of_settled h now
    rw [hfiles, hexit]
    generalize hwrite : (Report.full (.ofResults current baseline t) now).write files
      a.outputDirectory = result
    obtain ⟨written, error | ⟨⟩⟩ := result
    · exact .unreported hsettled hwrite
    · cases haccepted : (Assessment.ofResults current baseline t).isAccepted with
      | true => exact .completed ⟨hsettled, haccepted, hwrite, rfl⟩
      | false => exact .rejected hsettled haccepted hwrite
  · have hnot : ∀ t current baseline, ¬ a.Settled files t current baseline := by simpa using h
    obtain ⟨hexit, hfiles⟩ := AnalyzerArguments.run_stops_of_not_settled hnot now
    rw [hfiles, hexit]
    exact .stopped (stops_of_not_settled fun _ _ _ h => hnot _ _ _ (analysis_settled_iff.mp h))

theorem writeReport_comparison (a : RegressionArguments) (files : FileTree) (e : Assessment)
    (now : Timestamp) : (comparison a).writeReport files e now = a.writeReport files e := by
  unfold RegressionArguments.writeReport
  split
  · rename_i hnone
    exact writeReport_of_no_report (congrArg (Option.map _) hnone)
  · rename_i directory hdirectory
    exact writeReport_of_report? (congrArg (Option.map _) hdirectory)

theorem comparison_ends (a : RegressionArguments) (files : FileTree) (now : Timestamp) :
    (comparison a).JobEnd files now (a.run files).exitCode (a.run files).files := by
  have hreport := fun e => writeReport_comparison a files e now
  have hend := a.run_ends files
  generalize (a.run files).exitCode = code at hend ⊢
  generalize (a.run files).files = after at hend ⊢
  cases hend with
  | stopped hnot =>
      exact .stopped (stops_of_not_settled fun _ _ _ h => hnot _ _ _ (comparison_settled_iff.mp h))
  | unreported h hwrite =>
      exact .unreported (comparison_settled_iff.mpr h) ((hreport _).trans hwrite)
  | rejected h hrejected =>
      exact .rejected (comparison_settled_iff.mpr h.toSettled) hrejected
        ((hreport _).trans h.report)
  | accepted h haccepted hkeep =>
      have hnone : (comparison a).promotion? = none := if_neg (by simp [hkeep])
      exact .completed ⟨comparison_settled_iff.mpr h.toSettled, haccepted,
        (hreport _).trans h.report, promoteResults_of_no_promotion hnone⟩
  | unpromoted h haccepted hpromote herror =>
      have hsome : (comparison a).promotion? = some (a.current, a.baseline) := if_pos hpromote
      exact .unpromoted (comparison_settled_iff.mpr h.toSettled) ((hreport _).trans h.report)
        ((promoteResults_of_promotion? hsome).trans herror)
  | promoted h haccepted hpromote hok =>
      have hsome : (comparison a).promotion? = some (a.current, a.baseline) := if_pos hpromote
      exact .completed ⟨comparison_settled_iff.mpr h.toSettled, haccepted,
        (hreport _).trans h.report, (promoteResults_of_promotion? hsome).trans hok⟩

theorem gating_ends (a : GateArguments) (files : FileTree) (now : Timestamp) :
    (gating a).JobEnd files now (a.run files).exitCode (a.run files).files := by
  unfold GateArguments.run
  split
  · rename_i error herror
    exact .stopped (.inl ⟨error, herror⟩)
  · rename_i t hthresholds
    split
    · rename_i error herror
      exact .stopped (.inr (.inl ⟨error, herror⟩))
    · rename_i summary hsummary
      have hsettled : (gating a).Settled files t summary none := ⟨hthresholds, hsummary, rfl⟩
      dsimp only
      rw [Outcome.exitCode_after, Outcome.files_after]
      cases haccepted : (Assessment.ofReported summary t).isAccepted with
      | true => exact .completed ⟨hsettled, haccepted, rfl, rfl⟩
      | false => exact .rejected hsettled haccepted rfl

/-- **A job ends in one of five ways.** -/
theorem run_ends (j : Job) (files : FileTree) (now : Timestamp) :
    j.JobEnd files now (j.run files now).exitCode (j.run files now).files := by
  cases j with
  | analysis a => exact analysis_ends a files now
  | comparison a => exact comparison_ends a files now
  | gating a => exact gating_ends a files now

/-! ## What follows from the end of a job -/

/-- **A job exits with zero exactly when it is completed.** -/
theorem exitCode_eq_zero_iff (h : j.JobEnd files now code after) :
    code = 0 ↔ ∃ t current baseline written,
      j.Completes files now t current baseline written after := by
  constructor
  · intro hzero
    cases h with
    | stopped | unreported | rejected | unpromoted => cases hzero
    | completed h => exact ⟨_, _, _, _, h⟩
  · rintro ⟨t, current, baseline, written, hcompletes⟩
    -- both ends have loaded the same, so they cannot part at a later stage either
    cases h with
    | stopped hstops => exact absurd hcompletes.toSettled hstops.not_settled
    | unreported h hwrite =>
        obtain ⟨rfl, rfl, rfl⟩ := h.unique hcompletes.toSettled
        cases hwrite.symm.trans hcompletes.reports
    | rejected h hrejected =>
        obtain ⟨rfl, rfl, rfl⟩ := h.unique hcompletes.toSettled
        cases hrejected.symm.trans hcompletes.accepted
    | unpromoted h hwrite hpromote =>
        obtain ⟨rfl, rfl, rfl⟩ := h.unique hcompletes.toSettled
        cases hwrite.symm.trans hcompletes.reports
        cases hpromote.symm.trans hcompletes.promotes
    | completed => rfl

theorem exitCode_eq_one (h : j.JobEnd files now code after) (hne : code ≠ 0) : code = 1 := by
  cases h with
  | stopped | unreported | rejected | unpromoted => rfl
  | completed => exact absurd rfl hne

/-- **Nothing is written before everything is loaded.** -/
theorem files_of_stops (h : j.JobEnd files now code after) (hstops : j.Stops files) :
    code = 1 ∧ after = files := by
  cases h with
  | stopped => exact ⟨rfl, rfl⟩
  | unreported h => exact absurd h hstops.not_settled
  | rejected h => exact absurd h hstops.not_settled
  | unpromoted h => exact absurd h hstops.not_settled
  | completed h => exact absurd h.toSettled hstops.not_settled

/-- A job that is asked for neither a report nor a promotion changes nothing. -/
theorem files_of_no_output (h : j.JobEnd files now code after)
    (hreport : ∀ e, j.report? e now = none) (hpromotion : j.promotion? = none) : after = files := by
  have hwrite : ∀ e, j.writeReport files e now = (files, .ok ()) :=
    fun e => writeReport_of_no_report (hreport e)
  have hpromote : ∀ s : FileTree, j.promoteResults s = (s, .ok ()) :=
    fun s => promoteResults_of_no_promotion hpromotion
  cases h with
  | stopped => rfl
  | unreported _ h => cases (hwrite _).symm.trans h
  | rejected _ _ h => exact congrArg Prod.fst (h.symm.trans (hwrite _))
  | unpromoted _ _ h => cases (hpromote _).symm.trans h
  | completed h =>
      have hwritten := congrArg Prod.fst (h.reports.symm.trans (hwrite _))
      have hafter := congrArg Prod.fst (h.promotes.symm.trans (hpromote _))
      exact hafter.trans hwritten

theorem named_report? {e : Assessment} {directory : Path} {report : Report}
    (h : j.report? e now = some (directory, report)) : report.Named := by
  cases j with
  | analysis a =>
      cases h
      exact Report.named_full e now
  | comparison a =>
      obtain ⟨_, -, heq⟩ := Option.map_eq_some_iff.mp h
      cases heq
      exact Report.named_ofComparison e
  | gating a => cases h

/-- What a completed job leaves: every file of its report can be read, and the baseline has the
bytes of the results. -/
structure Delivers (j : Job) (e : Assessment) (now : Timestamp) (written after : FileTree) :
    Prop where
  report : ∀ directory report, j.report? e now = some (directory, report) →
    ∀ file ∈ report, written.readFile (directory.join file.path) = .ok file.content.toUTF8
  promotion : ∀ source target, j.promotion? = some (source, target) →
    written.HasPromoted after source target
  no_promotion : j.promotion? = none → after = written

theorem Completes.delivers (h : j.Completes files now t current baseline written after) :
    j.Delivers (j.assess current baseline t) now written after where
  report _ _ hreport :=
    Report.readFile_of_write (named_report? hreport)
      ((writeReport_of_report? hreport).symm.trans h.reports)
  promotion _ _ hpromotion :=
    hasPromoted_of_promote ((promoteResults_of_promotion? hpromotion).symm.trans h.promotes)
  no_promotion hnone :=
    congrArg Prod.fst (h.promotes.symm.trans (promoteResults_of_no_promotion hnone))

/-- How a job with a path for a baseline uses what is there. -/
structure Compares (j : Job) (files : FileTree) (t : Thresholds) (current : Results)
    (baseline : Option Results) (path : Path) : Prop where
  skips : (j.assess current baseline t).comparison = none ↔ files.pathExists path = false
  compares : files.pathExists path = true → ∃ v, files.readJson path = .ok v ∧
    (j.assess current baseline t).comparison =
      some (.of (.ofDocument .baseline v) (.ofResults current) t.regression)

/-- **A baseline is skipped only where nothing exists.** -/
theorem Settled.compares {path : Path} (h : j.Settled files t current baseline)
    (hpath : j.baselinePath? = some path) : j.Compares files t current baseline path := by
  have hassess : j.assess current baseline t = .ofResults current baseline t := by
    cases j with
    | analysis | comparison => rfl
    | gating => cases hpath
  have hloads := h.loadsBaseline
  unfold loadBaseline at hloads
  rw [hpath] at hloads
  cases baseline with
  | none =>
      have hnot := Results.baselineOfFile?_eq_none_iff.mp hloads
      have hnone : (j.assess current none t).comparison = none := by
        rw [hassess]
        rfl
      exact ⟨iff_of_true hnone hnot, fun hexists => by cases hnot.symm.trans hexists⟩
  | some b =>
      obtain ⟨v, hv, rfl⟩ :=
        Results.ofFile_eq_ok_iff.mp (Results.baselineOfFile?_eq_some_iff.mp hloads)
      obtain ⟨bytes, hread, -⟩ := exists_bytes_of_readJson hv
      have hexists := pathExists_of_readFile hread
      have hsome : (j.assess current (some (.ofJson .baseline v)) t).comparison =
          some (.of (.ofDocument .baseline v) (.ofResults current) t.regression) := by
        rw [hassess]
        rfl
      refine ⟨iff_of_false (fun hnone => ?_) (fun hnot => ?_), fun _ => ⟨v, hv, hsome⟩⟩
      · cases hsome.symm.trans hnone
      · cases hexists.symm.trans hnot

/-- A file of a directory is not skipped in silence. -/
theorem mem_errors_of_skipped {a : AnalyzerArguments} {skipped : List InputError}
    (hsettles : a.overrides.thresholds files = .ok t)
    (hcurrent : Results.ofDirectory files .current a.inputDirectory = .ok (current, skipped))
    {error : InputError} (h : error ∈ skipped) :
    warningLine s!"skipping {error.message}" ∈ (a.run files now).errors := by
  unfold AnalyzerArguments.run
  rw [hsettles]
  dsimp only
  rw [hcurrent]
  exact List.mem_append_left _ (List.mem_map_of_mem h)

/-- What a job promises about its exit code and the files that it leaves. -/
structure Contract (j : Job) (files : FileTree) (now : Timestamp) (o : Outcome) : Prop where
  exit_zero : o.exitCode = 0 ↔ ∃ t current baseline written,
    j.Completes files now t current baseline written o.files
  exit_one : o.exitCode ≠ 0 → o.exitCode = 1
  delivers : ∀ t current baseline written,
    j.Completes files now t current baseline written o.files →
      j.Delivers (j.assess current baseline t) now written o.files
  stops : j.Stops files → o.exitCode = 1 ∧ o.files = files
  compares : ∀ t current baseline path, j.Settled files t current baseline →
    j.baselinePath? = some path → j.Compares files t current baseline path
  /-- A file of a directory that holds no list of records stops nothing, but it is told. -/
  warns : ∀ a t current skipped, j = analysis a → a.overrides.thresholds files = .ok t →
    Results.ofDirectory files .current a.inputDirectory = .ok (current, skipped) →
    ∀ error ∈ skipped, warningLine s!"skipping {error.message}" ∈ o.errors

theorem contract_run (j : Job) (files : FileTree) (now : Timestamp) :
    j.Contract files now (j.run files now) where
  exit_zero := exitCode_eq_zero_iff (j.run_ends files now)
  exit_one := exitCode_eq_one (j.run_ends files now)
  delivers _ _ _ _ h := h.delivers
  stops := files_of_stops (j.run_ends files now)
  compares _ _ _ _ h hpath := h.compares hpath
  warns a t current skipped hj hsettles hcurrent error herror := by
    subst hj
    exact mem_errors_of_skipped hsettles hcurrent herror

end Job

/--
**Every command keeps the contract.** Whatever the files are, a command line that can be read asks
for a job, and the command exits with zero exactly when the job is completed, else with one. An
error in the thresholds or in an input changes no file, and the gate never changes one. A comparison
is skipped exactly when nothing exists at the path of the baseline, and only the gate has no such
path. A path that is too long leads nowhere. The input of the analyzer is a directory, so a file in
it that cannot be used is no error but a warning.
-/
theorem Command.run_keeps_contract {command : Command} {words : List String} {files : FileTree}
    {now : Timestamp} {o : Outcome} (h : command.run words files now = .ok o) :
    ∃ j, Job.read command words = .ok j ∧ j.Contract files now o ∧
      (command = .gate → o.files = files) ∧
      (command ≠ .gate → ∃ path, j.baselinePath? = some path) := by
  rw [run_eq] at h
  obtain ⟨j, hread, hrun⟩ := exists_ok_of_bind h
  cases hrun
  refine ⟨j, hread, j.contract_run files now, ?_⟩
  rw [← Job.command_of_read hread]
  cases j with
  | analysis a => exact ⟨nofun, fun _ => ⟨_, rfl⟩⟩
  | comparison a => exact ⟨nofun, fun _ => ⟨_, rfl⟩⟩
  | gating a =>
      exact ⟨fun _ => Job.files_of_no_output (Job.run_ends _ files now) (fun _ => rfl) rfl,
        fun hne => absurd rfl hne⟩

/-- A run that reports into a directory of its own and replaces an old baseline. -/
theorem Command.run_keeps_contract_replaced :
    let files := FileTree.ofTexts [("b.json", RegressionArguments.successesText 6),
      ("current.json", RegressionArguments.successesText 5)]
    let words := ["--baseline", "b.json", "--current", "current.json", "--output-dir", "out",
      "--promote-baseline"]
    ∃ o j t current baseline written, Command.regression.run words files ⟨0, 0⟩ = .ok o ∧
      Job.read .regression words = .ok j ∧
      j.Completes files ⟨0, 0⟩ t current baseline written o.files := by
  intro files words
  have hexit : ((Command.regression.run words files ⟨0, 0⟩).toOption.map Outcome.exitCode) =
      some 0 := by decide +kernel
  cases hrun : Command.regression.run words files ⟨0, 0⟩ with
  | error stop =>
      rw [hrun] at hexit
      cases hexit
  | ok o =>
      rw [hrun] at hexit
      obtain ⟨j, hread, hcontract, -⟩ := run_keeps_contract hrun
      obtain ⟨t, current, baseline, written, hcompletes⟩ :=
        hcontract.exit_zero.mp (Option.some.inj hexit)
      exact ⟨o, j, t, current, baseline, written, rfl, hread, hcompletes⟩

end BenchGate
