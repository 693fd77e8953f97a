import BenchGate.Proofs.Loading
import BenchGate.Proofs.Merging
import BenchGate.Proofs.Report

/-!
# Runs over a directory

A run settles its thresholds, merges the results of its input directory, looks for a baseline, and
writes its reports. It reads recursively from a tree that it also writes into, and two things keep
what it reads apart from what it writes.

* None of the files that it writes has the name of a record file, so no report is read as results,
  wherever it lies.
* Directories hold no results, so it does not matter that new ones appear.

With the baseline it is less simple: the results are chosen by name and the baseline by path, and a
baseline that is named like a record file is read as both.
-/

namespace BenchGate

open FileTree

namespace AnalyzerArguments

variable {a : AnalyzerArguments} {files s : FileTree} {t : Thresholds} {current : Results}
  {baseline : Option Results} {now : Timestamp} {k : Location}

/-! ## What a run reads -/

/-- The results under assessment, without the errors of what was skipped. -/
def currentResults (a : AnalyzerArguments) (files : FileTree) : Except InputError Results :=
  (Results.ofDirectory files .current a.inputDirectory).map Prod.fst

/-- The thresholds are settled and the inputs are loaded. -/
structure Settled (a : AnalyzerArguments) (files : FileTree) (t : Thresholds) (current : Results)
    (baseline : Option Results) : Prop where
  settles : a.overrides.thresholds files = .ok t
  loadsCurrent : a.currentResults files = .ok current
  loadsBaseline : Results.baselineOfFile? files a.baselinePath = .ok baseline

/-- The arguments of a run with default thresholds. -/
def analyzing (input output : String) (baseline : Option String := none) : AnalyzerArguments where
  inputDirectory := .ofText input
  outputDirectory := .ofText output
  baseline := baseline.map .ofText
  overrides := {}
  verbosity := ⟨false, false⟩

/-- One record of a success. -/
def successText : String :=
  "[\x7b\"success\":true,\"metrics\":\x7b\"executionTime\":1,\"memoryUsage\":1\x7d\x7d]"

/-! ## The baseline among the results -/

/-- The baseline is one of the files that hold the results under assessment. -/
def CountsBaseline (a : AnalyzerArguments) (files : FileTree) : Prop :=
  files.isDirectory a.inputDirectory = true ∧
    ∃ paths, Results.recordFiles files a.inputDirectory = .ok paths ∧
      ∃ p ∈ paths, files.locationOf p = files.locationOf a.baselinePath

theorem currentResults_eq_ok_iff :
    a.currentResults files = .ok current ↔
      ∃ skipped, Results.ofDirectory files .current a.inputDirectory = .ok (current, skipped) := by
  unfold currentResults
  cases Results.ofDirectory files .current a.inputDirectory with
  | error error => exact iff_of_false (fun h => by cases h) (by rintro ⟨_, ⟨⟩⟩)
  | ok loaded =>
      obtain ⟨found, skipped⟩ := loaded
      constructor
      · intro h
        cases h
        exact ⟨skipped, rfl⟩
      · rintro ⟨_, h⟩
        cases h
        rfl

/-- A baseline is loaded from any JSON text that stands in its place. -/
theorem exists_baselineOfFile?_insert {p : Path} {old new : ByteArray} {text : String} {v : Json}
    (hold : files.find? (files.locationOf p) = some (.file old))
    (htext : String.fromUTF8? new = some text) (hv : Json.parse text = .ok v) :
    ∃ baseline, Results.baselineOfFile? (files.insert (files.locationOf p) (.file new)) p =
      .ok baseline := by
  have hshape := sameShape_insert hold new
  generalize hother : files.insert (files.locationOf p) (.file new) = other at hshape
  have hhere : other.find? (files.locationOf p) = some (.file new) := by
    rw [← hother, find?_insert (ne_nil_of_find?_file hold) (find?_dropLast hold) (by simp [hold])
      (fun hdirectory : Entry.file new = .directory => by cases hdirectory), if_pos rfl]
  cases hexists : other.pathExists p with
  | false => exact ⟨none, Results.baselineOfFile?_eq_none_iff.mpr hexists⟩
  | true =>
      obtain ⟨e, hlook⟩ := pathExists_iff.mp hexists
      obtain ⟨x, htarget, hfind, -⟩ := look_eq_ok_iff.mp hlook
      rw [location_of_target htarget, hshape.1.keeps.locationOf, hhere] at hfind
      obtain rfl := Option.some.inj hfind
      have hread : other.readFile p = .ok new := by
        unfold readFile
        rw [hlook, ok_bind]
      have hjson := readJson_eq_ok_iff.mpr ⟨text, readText_eq_ok_iff.mpr ⟨new, hread, htext⟩, hv⟩
      refine ⟨some (.ofJson .baseline v), Results.baselineOfFile?_eq_some_iff.mpr ?_⟩
      exact Results.ofFile_eq_ok_iff.mpr ⟨v, hjson, rfl⟩

/-- With another baseline, everything else is loaded as before. -/
theorem Settled.exists_insert {old new : ByteArray} {text : String} {v : Json}
    (h : a.Settled files t current baseline)
    (hold : files.find? (files.locationOf a.baselinePath) = some (.file old))
    (htext : String.fromUTF8? new = some text) (hv : Json.parse text = .ok v)
    (hconfig : ∀ path, a.overrides.config = some path →
      files.locationOf path ≠ files.locationOf a.baselinePath)
    (hresults : Results.ofDirectory (files.insert (files.locationOf a.baselinePath) (.file new))
      .current a.inputDirectory = Results.ofDirectory files .current a.inputDirectory) :
    ∃ baseline', a.Settled (files.insert (files.locationOf a.baselinePath) (.file new)) t current
      baseline' := by
  obtain ⟨baseline', hbaseline⟩ := exists_baselineOfFile?_insert hold htext hv
  have hkeep := (sameShape_insert hold new).1.keeps
  refine ⟨baseline', ?_, ?_, hbaseline⟩
  · refine Overrides.thresholds_of_readFile h.settles fun path bytes hpath hread => ?_
    refine readFile_of_keepsDirectories hkeep hread ?_
    rw [find?_insert_of_ne files _ (hconfig path hpath)]
    exact (readFile_eq_ok_iff.mp hread).2
  · unfold currentResults
    rw [hresults]
    exact h.loadsCurrent

/--
**The baseline does not count as current**, unless it is one of the files that the search of the
input directory finds: with any other content there, a run finds the same results, and judges them
by the same metrics. With JSON there that is not also the configuration, it loads whatever it needs
again. The baseline is found only if it has the name of a record file, and, where the path of the
input directory has no wildcards, only if it lies below that.
-/
theorem baseline_apart (a : AnalyzerArguments) (files : FileTree) (h : files.WellNamed)
    {old : ByteArray} (hold : files.find? (files.locationOf a.baselinePath) = some (.file old))
    (new : ByteArray) :
    let here := files.locationOf a.baselinePath
    let other := files.insert here (.file new)
    (¬ a.CountsBaseline files →
      Results.ofDirectory other .current a.inputDirectory =
        Results.ofDirectory files .current a.inputDirectory ∧
      (∀ t current baseline t' current' baseline', a.Settled files t current baseline →
        a.Settled other t' current' baseline' →
        current' = current ∧
          (Assessment.ofResults current' baseline' t').current =
            (Assessment.ofResults current baseline t).current) ∧
      ∀ text v, String.fromUTF8? new = some text → Json.parse text = .ok v →
        (∀ path, a.overrides.config = some path → files.locationOf path ≠ here) →
        ∀ t current baseline, a.Settled files t current baseline →
          ∃ baseline', a.Settled other t current baseline') ∧
    (a.CountsBaseline files →
      Results.IsRecordName (here.getLastD "") ∧
        (a.inputDirectory.IsPlain →
          ∃ names, names ≠ [] ∧ here = files.locationOf a.inputDirectory ++ names)) := by
  intro here other
  refine ⟨fun hapart => ?_, fun ⟨hdir, paths, hpaths, p, hp, hsame⟩ => ⟨?_, fun hplain => ?_⟩⟩
  · have hresults : Results.ofDirectory other .current a.inputDirectory =
        Results.ofDirectory files .current a.inputDirectory := by
      refine Results.ofDirectory_of_sameShape (sameShape_insert hold new) h ?_
      intro hdir paths hpaths p hp
      exact find?_insert_of_ne files _ fun heq => hapart ⟨hdir, paths, hpaths, p, hp, heq⟩
    refine ⟨hresults, fun t current baseline t' current' baseline' hsettled hsettled' => ?_,
      fun text v htext hv hconfig t current baseline hsettled =>
        hsettled.exists_insert hold htext hv hconfig hresults⟩
    have hcurrent : current' = current := by
      have hloaded := hsettled'.loadsCurrent
      unfold currentResults at hloaded
      rw [hresults] at hloaded
      exact Except.ok.inj (hloaded.symm.trans hsettled.loadsCurrent)
    rw [hcurrent]
    exact ⟨rfl, rfl⟩
  · have hname := Results.isRecordName_of_mem_recordFiles h hpaths hp
    rwa [hsame] at hname
  · obtain ⟨names, hne, hbelow⟩ := Results.location_of_mem_recordFiles h hplain hdir hpaths hp
    exact ⟨names, hne, hsame.symm.trans hbelow⟩

/-- A baseline of the usual name may lie in the input directory. -/
theorem baseline_apart_within :
    let a := analyzing "in" "out"
    let files := FileTree.ofFiles [(["in", "a.json"], successText), (["in", "baseline.json"], "[]")]
    let other := files.insert ["in", "baseline.json"] (.file successText.toUTF8)
    Results.ofDirectory other .current a.inputDirectory =
      Results.ofDirectory files .current a.inputDirectory := by
  intro a files other
  have hhere : files.locationOf a.baselinePath = ["in", "baseline.json"] := by decide +kernel
  have hold : files.find? (files.locationOf a.baselinePath) = some (.file "[]".toUTF8) := by
    decide +kernel
  obtain ⟨hapart, hcounts⟩ := baseline_apart a files (by decide +kernel) hold successText.toUTF8
  rw [hhere] at hapart hcounts
  exact (hapart fun hcount => absurd (hcounts hcount).1 (by decide +kernel)).1

/-- A baseline with the name of a record file counts twice. -/
theorem baseline_counts :
    let a := analyzing "in" "out" (some "in/prev.json")
    let files := FileTree.ofFiles [(["in", "prev.json"], "[]")]
    let other := files.insert (files.locationOf a.baselinePath) (.file successText.toUTF8)
    files.find? (files.locationOf a.baselinePath) = some (.file "[]".toUTF8) ∧
      (a.currentResults files).toOption.map Results.total = some 0 ∧
      (a.currentResults other).toOption.map Results.total = some 1 := by
  decide +kernel

/-! ## What a run writes -/

/-- Where a run writes its reports. -/
def reportLocations (a : AnalyzerArguments) (files : FileTree) : List Location :=
  [comparisonFileName, comparisonTextFileName, summaryFileName, statisticsFileName,
    hintsFileName].map fun name => files.locationOf (a.outputDirectory.join (.ofText name))

@[simp] theorem exitCode_baselineNotice (a : AnalyzerArguments) (baseline : Option Results)
    (o : Outcome) : (a.baselineNotice baseline o).exitCode = o.exitCode := by
  cases baseline <;> rfl

@[simp] theorem files_baselineNotice (a : AnalyzerArguments) (baseline : Option Results)
    (o : Outcome) : (a.baselineNotice baseline o).files = o.files := by
  cases baseline <;> rfl

theorem finish_eq (a : AnalyzerArguments) (files : FileTree) (now : Timestamp) (e : Assessment) :
    let written := (Report.full e now).write files a.outputDirectory
    (a.finish files now e).files = written.1 ∧
      (a.finish files now e).exitCode =
        if written.2.isOk && e.isAccepted then Outcome.acceptedCode else Outcome.rejectedCode := by
  unfold finish
  rw [Outcome.files_after, Outcome.exitCode_after]
  obtain ⟨after, result⟩ := (Report.full e now).write files a.outputDirectory
  cases result with
  | ok u => exact ⟨rfl, rfl⟩
  | error error => exact ⟨rfl, rfl⟩

/-- A run that loads everything is accepted if its results are and its reports can be written. -/
theorem run_of_settled (h : a.Settled files t current baseline) (now : Timestamp) :
    let e := Assessment.ofResults current baseline t
    let written := (Report.full e now).write files a.outputDirectory
    (a.run files now).files = written.1 ∧
      (a.run files now).exitCode =
        if written.2.isOk && e.isAccepted then Outcome.acceptedCode else Outcome.rejectedCode := by
  intro e written
  obtain ⟨skipped, hcurrent⟩ := currentResults_eq_ok_iff.mp h.loadsCurrent
  have hfinish := a.finish_eq files now e
  unfold run
  rw [h.settles]
  dsimp only
  rw [hcurrent]
  dsimp only
  rw [h.loadsBaseline]
  simpa using hfinish

/-- A run that cannot load everything is rejected, and it changes nothing. -/
theorem run_stops_of_not_settled (h : ∀ t current baseline, ¬ a.Settled files t current baseline)
    (now : Timestamp) :
    (a.run files now).exitCode = Outcome.rejectedCode ∧ (a.run files now).files = files := by
  unfold run
  cases hsettles : a.overrides.thresholds files with
  | error error => exact ⟨rfl, rfl⟩
  | ok t =>
      dsimp only
      cases hcurrent : Results.ofDirectory files .current a.inputDirectory with
      | error error => exact ⟨rfl, rfl⟩
      | ok loaded =>
          obtain ⟨current, skipped⟩ := loaded
          dsimp only
          cases hbaseline : Results.baselineOfFile? files a.baselinePath with
          | error error => exact ⟨rfl, rfl⟩
          | ok baseline =>
              have hloaded := currentResults_eq_ok_iff.mpr ⟨skipped, hcurrent⟩
              exact absurd ⟨hsettles, hloaded, hbaseline⟩ (h t current baseline)

theorem run_of_not_settled (h : ∀ t current baseline, ¬ a.Settled files t current baseline)
    (now : Timestamp) : (a.run files now).files = files :=
  (run_stops_of_not_settled h now).2

/-! ## What a run changes -/

theorem growsInto_run (a : AnalyzerArguments) (files : FileTree) (now : Timestamp) :
    files.GrowsInto (a.run files now).files := by
  by_cases h : ∃ t current baseline, a.Settled files t current baseline
  · obtain ⟨t, current, baseline, h⟩ := h
    rw [(run_of_settled h now).1]
    exact Report.growsInto_write _ _ _
  · rw [run_of_not_settled (by simpa using h)]
    exact .refl files

theorem wellNamed_run (h : files.WellNamed) (a : AnalyzerArguments) (now : Timestamp) :
    (a.run files now).files.WellNamed := by
  by_cases hsettled : ∃ t current baseline, a.Settled files t current baseline
  · obtain ⟨t, current, baseline, hsettled⟩ := hsettled
    rw [(run_of_settled hsettled now).1]
    exact h.of_mem_statesOf (runSteps_mem_statesOf _ _)
  · rw [run_of_not_settled (by simpa using hsettled)]
    exact h

theorem mem_reportLocations {e : Assessment} {file : ReportFile} (h : file ∈ Report.full e now) :
    files.locationOf (a.outputDirectory.join file.path) ∈ a.reportLocations files := by
  have hname : ∃ name ∈ [comparisonFileName, comparisonTextFileName, summaryFileName,
      statisticsFileName, hintsFileName], Path.ofText name = file.path := by
    cases hcomparison : e.comparison with
    | none =>
        simp only [Report.full, Report.ofComparison, hcomparison, List.nil_append, List.mem_cons,
          List.not_mem_nil, or_false] at h
        rcases h with rfl | rfl | rfl
        all_goals exact ⟨_, by decide, rfl⟩
    | some c =>
        simp only [Report.full, Report.ofComparison, hcomparison, List.cons_append,
          List.nil_append, List.mem_cons, List.not_mem_nil, or_false] at h
        rcases h with rfl | rfl | rfl | rfl | rfl
        all_goals exact ⟨_, by decide, rfl⟩
  obtain ⟨name, hmem, hpath⟩ := hname
  rw [← hpath]
  exact List.mem_map.mpr ⟨name, hmem, rfl⟩

/-- **What a run changes**: a place has what it had, or a report is there, or a new directory on the
way of the output directory. -/
theorem find?_run_cases (a : AnalyzerArguments) (files : FileTree) (now : Timestamp)
    (k : Location) :
    (a.run files now).files.find? k = files.find? k ∨
      k ∈ a.reportLocations files ∨
      a.outputDirectory.Passes files.workingDirectory k ∧
        files.GainsDirectory (a.run files now).files k := by
  by_cases h : ∃ t current baseline, a.Settled files t current baseline
  · obtain ⟨t, current, baseline, h⟩ := h
    rw [(run_of_settled h now).1]
    rcases Report.find?_write_cases files a.outputDirectory
      (Report.full (.ofResults current baseline t) now) k with hsame | ⟨file, hfile, rfl⟩ | hgains
    · exact .inl hsame
    · exact .inr (.inl (mem_reportLocations hfile))
    · exact .inr (.inr hgains)
  · rw [run_of_not_settled (by simpa using h)]
    exact .inl rfl

/-- No report has the name of a record file. -/
theorem not_isRecordName_of_mem_reportLocations (h : k ∈ a.reportLocations files) :
    ¬ Results.IsRecordName (k.getLastD "") := by
  obtain ⟨name, hmem, rfl⟩ := List.mem_map.mp h
  have hnames : ∀ name ∈ [comparisonFileName, comparisonTextFileName, summaryFileName,
      statisticsFileName, hintsFileName],
      Path.ofText name = ⟨[name]⟩ ∧ Path.IsName name ∧ ¬ Results.IsRecordName name := by decide
  obtain ⟨hpath, hname, hreport⟩ := hnames name hmem
  obtain ⟨l, hl⟩ := exists_locationOf_join (t := files) (d := a.outputDirectory) hname
  rwa [hpath, hl, List.getLastD_concat]

/-! ## Running again -/

/-- A run leaves what is at the location of a path as it was. -/
def LeavesAlone (a : AnalyzerArguments) (files : FileTree) (now : Timestamp) (path : Path) : Prop :=
  (a.run files now).files.find? (files.locationOf path) = files.find? (files.locationOf path)

theorem isDirectory_of_currentResults (h : a.currentResults files = .ok current) :
    files.isDirectory a.inputDirectory = true := by
  obtain ⟨skipped, hloaded⟩ := currentResults_eq_ok_iff.mp h
  unfold Results.ofDirectory at hloaded
  split at hloaded
  · assumption
  · cases hloaded

/-- After a run, no record file is found under a path that led nowhere before. -/
def FindsNothingNew (a : AnalyzerArguments) (files : FileTree) (now : Timestamp) : Prop :=
  ∀ paths, Results.recordFiles (a.run files now).files a.inputDirectory = .ok paths →
    ∀ p ∈ paths, ∀ content, (a.run files now).files.look p = .ok (.file content) →
      files.pathExists p = true

/-- No report has the name of a record file, so such files are as they were. -/
theorem find?_run_of_isRecordName {content : ByteArray}
    (hname : Results.IsRecordName (k.getLastD ""))
    (hk : (a.run files now).files.find? k = some (.file content)) :
    files.find? k = some (.file content) := by
  rcases a.find?_run_cases files now k with hsame | hreport | ⟨-, -, hmade⟩
  · rw [← hsame, hk]
  · exact absurd hname (not_isRecordName_of_mem_reportLocations hreport)
  · cases hmade.symm.trans hk

/-- Without wildcards in its path, the input directory is searched by its place only. -/
theorem findsNothingNew_of_isPlain (h : files.WellNamed) (hplain : a.inputDirectory.IsPlain)
    (now : Timestamp) : a.FindsNothingNew files now := by
  intro paths hpaths p hp content hlook
  by_cases hdir : files.isDirectory a.inputDirectory = true
  · have hkeep := (a.growsInto_run files now).keeps
    have hnamed := wellNamed_run h a now
    have hname := Results.isRecordName_of_mem_recordFiles hnamed hpaths hp
    obtain ⟨x, htarget, hfind, -⟩ := look_eq_ok_iff.mp hlook
    rw [location_of_target htarget] at hfind
    rw [hkeep.locationOf] at hname hfind
    exact Results.pathExists_of_mem_recordFiles hkeep hnamed hplain hdir hpaths hp
      (pathExists_iff.mpr ⟨_, hlook⟩) (find?_run_of_isRecordName hname hfind)
  · have hsame : (a.run files now).files = files := by
      refine run_of_not_settled (fun t current baseline hsettled => hdir ?_) now
      exact isDirectory_of_currentResults hsettled.loadsCurrent
    rw [hsame] at hlook
    exact pathExists_iff.mpr ⟨_, hlook⟩

/-- **A run leaves the results alone from which it was made.** -/
theorem currentResults_run (h : files.WellNamed) (hnew : a.FindsNothingNew files now)
    (hdir : files.isDirectory a.inputDirectory = true) :
    a.currentResults (a.run files now).files = a.currentResults files := by
  refine Results.fst_ofDirectory_of_growsInto (a.growsInto_run files now) h (wellNamed_run h a now)
    hdir (fun l e hname hl => ?_) hnew
  rcases a.find?_run_cases files now l with hsame | hreport | ⟨-, hfree, -⟩
  · rw [hsame, hl]
  · exact absurd hname (not_isRecordName_of_mem_reportLocations hreport)
  · cases hfree.symm.trans hl

/-- The baseline that a run had, the next one has. -/
theorem baselineOfFile?_run (hdir : files.isDirectory a.inputDirectory = true)
    (hup : ∀ path, a.baseline = some path → ".." ∉ path.segments)
    (halone : a.LeavesAlone files now a.baselinePath)
    (hloads : Results.baselineOfFile? files a.baselinePath = .ok baseline) :
    Results.baselineOfFile? (a.run files now).files a.baselinePath = .ok baseline := by
  have hkeep := (a.growsInto_run files now).keeps
  cases baseline with
  | some b =>
      rw [Results.baselineOfFile?_eq_some_iff, Results.ofFile_eq_ok_iff] at hloads ⊢
      obtain ⟨v, hv, hb⟩ := hloads
      obtain ⟨bytes, hread, hagain⟩ := exists_bytes_of_readJson hv
      have hfile := (readFile_eq_ok_iff.mp hread).2
      exact ⟨v, hagain (readFile_of_keepsDirectories hkeep hread (halone.trans hfile)), hb⟩
  | none =>
      rw [Results.baselineOfFile?_eq_none_iff] at hloads ⊢
      rw [Bool.eq_false_iff] at hloads ⊢
      refine fun hfound => hloads ?_
      unfold LeavesAlone at halone
      cases hgiven : a.baseline with
      | some path =>
          have hpath : a.baselinePath = path := by rw [baselinePath, hgiven, Option.getD_some]
          rw [hpath] at hfound halone ⊢
          exact pathExists_of_kept hkeep (hup path hgiven) halone hfound
      | none =>
          have hpath : a.baselinePath = a.inputDirectory.join ⟨["baseline.json"]⟩ := by
            rw [baselinePath, hgiven]
            rfl
          rw [hpath] at hfound halone ⊢
          exact pathExists_join_of_kept hkeep hdir (by decide) halone hfound

/-- What a run has loaded, the next one loads again. -/
theorem Settled.again (hloaded : a.Settled files t current baseline) (h : files.WellNamed)
    (hnew : a.FindsNothingNew files now)
    (hup : ∀ path, a.baseline = some path → ".." ∉ path.segments)
    (hbaseline : a.LeavesAlone files now a.baselinePath)
    (hconfig : ∀ path, a.overrides.config = some path → a.LeavesAlone files now path) :
    a.Settled (a.run files now).files t current baseline := by
  have hdir := isDirectory_of_currentResults hloaded.loadsCurrent
  have hkeep := (a.growsInto_run files now).keeps
  refine ⟨?_, ?_, baselineOfFile?_run hdir hup hbaseline hloaded.loadsBaseline⟩
  · refine Overrides.thresholds_of_readFile hloaded.settles fun path bytes hpath hread => ?_
    have hfile := (readFile_eq_ok_iff.mp hread).2
    exact readFile_of_keepsDirectories hkeep hread ((hconfig path hpath).trans hfile)
  · rw [currentResults_run h hnew hdir]
    exact hloaded.loadsCurrent

/--
**Running again changes nothing.** A second run uses the same results, ends with the same exit code
and leaves every place as the first one left it. That is so if a baseline path that is given never
goes up, the first run leaves the places of the baseline and of the configuration alone, and it
opens no new way to a record file. It never does if there is no wildcard in the path of the input
directory. And it leaves a place alone if it writes no report there and, where nothing is, makes no
directory.
-/
theorem run_twice (a : AnalyzerArguments) (files : FileTree) (now : Timestamp)
    (h : files.WellNamed) (hup : ∀ path, a.baseline = some path → ".." ∉ path.segments) :
    let first := a.run files now
    let second := a.run first.files now
    (a.FindsNothingNew files now → a.LeavesAlone files now a.baselinePath →
      (∀ path, a.overrides.config = some path → a.LeavesAlone files now path) →
      a.currentResults first.files = a.currentResults files ∧
        second.exitCode = first.exitCode ∧ ∀ l, second.files.find? l = first.files.find? l) ∧
    (a.inputDirectory.IsPlain → a.FindsNothingNew files now) ∧
    ∀ path, files.locationOf path ∉ a.reportLocations files →
      (files.find? (files.locationOf path) = none →
        ¬ a.outputDirectory.Passes files.workingDirectory (files.locationOf path)) →
      a.LeavesAlone files now path := by
  intro first second
  refine ⟨fun hnew hbaseline hconfig => ?_, fun hplain => findsNothingNew_of_isPlain h hplain now,
    fun path hreport hpasses => ?_⟩
  · by_cases hloaded : ∃ t current baseline, a.Settled files t current baseline
    · obtain ⟨t, current, baseline, hloaded⟩ := hloaded
      have hagain := hloaded.again h hnew hup hbaseline hconfig
      obtain ⟨hfiles, hexit⟩ := run_of_settled hloaded now
      obtain ⟨hfiles', hexit'⟩ := run_of_settled hagain now
      obtain ⟨hok, hfind⟩ := Report.write_again files a.outputDirectory
        (Report.full (.ofResults current baseline t) now)
      refine ⟨hagain.loadsCurrent.trans hloaded.loadsCurrent.symm, ?_, fun l => ?_⟩
      · rw [hexit', hexit, hfiles, hok]
      · rw [hfiles', hfiles]
        exact hfind l
    · have hsame : first.files = files := run_of_not_settled (by simpa using hloaded) now
      have hsecond : second = first := by
        change a.run first.files now = first
        rw [hsame]
      rw [hsecond, hsame]
      exact ⟨rfl, rfl, fun l => rfl⟩
  · rcases a.find?_run_cases files now (files.locationOf path) with
      hsame | hwritten | ⟨hpass, hfree, -⟩
    · exact hsame
    · exact absurd hwritten hreport
    · exact absurd hpass (hpasses hfree)

/-- The reports may go below the input directory, also into a directory named like a record file. -/
theorem run_twice_within :
    let a := analyzing "in" "in/reports.json"
    let files := FileTree.ofFiles [(["in", "a.json"], successText)]
    let now : Timestamp := ⟨0, 0⟩
    let first := a.run files now
    let second := a.run first.files now
    first.exitCode = 0 ∧ second.exitCode = 0 ∧
      ∀ l, second.files.find? l = first.files.find? l := by
  intro a files now first second
  have hexit : first.exitCode = 0 := by decide +kernel
  have hconfig : a.overrides.config = none := rfl
  obtain ⟨hagain, hplain, halone⟩ := run_twice a files now (by decide +kernel)
    (fun path hpath => by cases hpath)
  have hway : ∀ above ∈ a.outputDirectory.segments.inits,
      above.foldl Location.step (a.outputDirectory.start files.workingDirectory) ≠
        files.locationOf a.baselinePath := by decide +kernel
  have hbaseline : a.LeavesAlone files now a.baselinePath := by
    refine halone _ (by decide +kernel) ?_
    rintro - ⟨above, habove, hpasses⟩
    exact hway above (List.mem_inits _ _ |>.mpr habove) hpasses
  obtain ⟨-, hsecond, hfind⟩ := hagain (hplain (by decide +kernel)) hbaseline fun path hpath => by
    rw [hconfig] at hpath
    cases hpath
  exact ⟨hexit, hsecond.trans hexit, hfind⟩

/-- Where the output path passes the place of the baseline, the first run makes a directory there,
and the second one cannot read it. Where the input path has wildcards, the directory that the first
run makes can be one more way to the same results. -/
theorem run_twice_differs :
    (let a := analyzing "in" "x/../y" (some "x")
     let files := FileTree.ofFiles [(["in", "a.json"], successText)]
     let here := files.locationOf a.baselinePath
     let first := a.run files ⟨0, 0⟩
     (".." ∉ a.baselinePath.segments ∧ here ∉ a.reportLocations files ∧
       ¬ here <+: files.locationOf a.outputDirectory) ∧
       first.exitCode = 0 ∧ (a.run first.files ⟨0, 0⟩).exitCode = 1) ∧
    (let a := analyzing "w/?/../../r" "w/0"
     let files := (FileTree.ofFiles [(["r", "a.json"], successText)]).insertDirectories ["w", "?"]
     let first := a.run files ⟨0, 0⟩
     (a.currentResults files).toOption.map Results.total = some 1 ∧
       (a.currentResults first.files).toOption.map Results.total = some 2) := by
  refine ⟨by decide +kernel, by decide +kernel, ?_⟩
  generalize hfirst : ((analyzing "w/?/../../r" "w/0").run
    ((FileTree.ofFiles [(["r", "a.json"], successText)]).insertDirectories ["w", "?"]) ⟨0, 0⟩).files
    = t
  have hin : t.isDirectory ⟨["w"]⟩ = true := by
    rw [← hfirst]
    exact isDirectory_of_keepsDirectories (growsInto_run _ _ _).keeps (by decide +kernel)
  have hhere : t.locationOf ⟨["w"]⟩ = ["w"] := by
    rw [← hfirst]
    exact (growsInto_run _ _ _).keeps.locationOf _
  have hlisted : t.listDirectory ⟨["w"]⟩ = [(⟨["w", "0"]⟩, "0"), (⟨["w", "?"]⟩, "?")] := by
    have hchildren : (t.children ["w"]).map Prod.fst = [["w", "0"], ["w", "?"]] := by
      rw [← hfirst]
      decide +kernel
    unfold FileTree.listDirectory
    rw [locate_of_isDirectory hin, hhere]
    dsimp only
    rw [hchildren, List.mergeSort_of_pairwise (by decide +kernel)]
    rfl
  have hglob : t.glob (Results.patternFor (.ofText "w/?/../../r")) =
      .ok (t.reach [.literal "w", .wild [.anyChar], .literal "..", .literal "..", .literal "r",
        .directories, .wild GlobToken.ofRecordFiles] ⟨["."]⟩) := by rfl
  have hfound : t.reach [.literal "w", .wild [.anyChar], .literal "..", .literal "..",
      .literal "r", .directories, .wild GlobToken.ofRecordFiles] ⟨["."]⟩ =
      [⟨["w", "0", "..", "..", "r", "a.json"]⟩, ⟨["w", "?", "..", "..", "r", "a.json"]⟩] := by
    have hwithin : within ⟨["."]⟩ ["w"] = ⟨["w"]⟩ := rfl
    rw [reach, if_neg (by decide), hwithin, if_pos (pathExists_of_isDirectory hin), reach,
      if_pos hin, hlisted, ← hfirst]
    decide +kernel
  have hfiles : Results.recordFiles t (.ofText "w/?/../../r") =
      .ok [⟨["w", "0", "..", "..", "r", "a.json"]⟩, ⟨["w", "?", "..", "..", "r", "a.json"]⟩] := by
    unfold Results.recordFiles
    rw [hglob, hfound]
    refine congrArg Except.ok ?_
    rw [List.filter_eq_self.mpr (by decide +kernel), List.mergeSort_of_pairwise (by decide +kernel)]
  unfold currentResults Results.ofDirectory analyzing
  dsimp only
  rw [hfiles, ← hfirst]
  decide +kernel

end AnalyzerArguments

end BenchGate
