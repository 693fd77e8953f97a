import BenchGate.CommandLine.Run
import BenchGate.Proofs.Files.Growth

/-!
# What a report changes

A report changes the places of its files, and it makes directories on the way of its own directory,
where nothing was. Written a second time, it changes nothing, whether it was written to its end or
stopped before. Once it is written, each of its files can be read back, and holds what the last
entry for its name says.
-/

namespace BenchGate

open FileTree

variable {files s : FileTree} {k : Location} {x : Entry}

namespace Report

variable {directory : Path} {report : Report}

theorem write_nil (files : FileTree) (directory : Path) :
    Report.write files directory [] = (files, .ok ()) := rfl

/-- The steps that write the files of a report. -/
def writing (directory : Path) (report : Report) : List (Guarded ReportError) :=
  report.map fun file =>
    let path := directory.join file.path
    ⟨.write path file.content.toUTF8, .file path⟩

/-- The step that writes a file of a report. -/
def writeStep (directory : Path) (file : ReportFile) : Guarded ReportError :=
  ⟨.write (directory.join file.path) file.content.toUTF8, .file (directory.join file.path)⟩

theorem writing_eq (directory : Path) (report : Report) :
    writing directory report = report.map (writeStep directory) := rfl

theorem writes_writing (directory : Path) (report : Report) :
    Writes (writing directory report) := by
  intro g hg
  obtain ⟨file, -, rfl⟩ := List.mem_map.mp hg
  exact ⟨_, _, rfl⟩

theorem steps_eq (hne : report ≠ []) :
    report.steps files directory =
      ensuring (.directory directory) (files.directoriesFor directory) ++
        writing directory report := by
  unfold steps
  rw [if_neg (by simpa using hne)]
  rfl

theorem growsInto_write (files : FileTree) (directory : Path) (report : Report) :
    files.GrowsInto (report.write files directory).1 := by
  refine growsInto_of_runSteps fun g hg source destination => ?_
  by_cases hne : report = []
  · rw [hne] at hg
    cases hg
  · rw [steps_eq hne] at hg
    rcases List.mem_append.mp hg with hmade | hwritten
    · obtain ⟨path, -, rfl⟩ := List.mem_map.mp hmade
      exact nofun
    · obtain ⟨file, -, rfl⟩ := List.mem_map.mp hwritten
      exact nofun

theorem keepsDirectories_write (files : FileTree) (directory : Path) (report : Report) :
    files.KeepsDirectories (report.write files directory).1 :=
  (growsInto_write files directory report).keeps

/-- Writing files changes nothing but their places. -/
theorem find?_writing {made : FileTree} (hs : s ∈ statesOf made (writing directory report))
    (hout : ∀ file ∈ report, k ≠ made.locationOf (directory.join file.path)) :
    s.find? k = made.find? k := by
  refine find?_of_mem_statesOf hs fun g hg => ?_
  obtain ⟨file, hmem, rfl⟩ := List.mem_map.mp hg
  rw [FileStep.touches, List.mem_singleton]
  exact hout file hmem

/-- While a report is written, a place that is none of its files' has what it had, or there is a new
directory on the way of the report's directory. -/
theorem find?_made_writing {made : FileTree}
    (hmade : made ∈ statesOf files (ensuring (ReportError.directory directory)
      (files.directoriesFor directory)))
    (hs : s ∈ statesOf made (writing directory report))
    (hout : ∀ file ∈ report, k ≠ files.locationOf (directory.join file.path)) :
    s.find? k = files.find? k ∨
      directory.Passes files.workingDirectory k ∧ files.GainsDirectory s k := by
  have hsame : s.find? k = made.find? k := find?_writing hs fun file hmem => by
    rw [(keepsDirectories_of_mem_statesOf hmade).locationOf]
    exact hout file hmem
  rw [FileTree.GainsDirectory, hsame]
  refine (find?_ensuring hmade k).imp_right ?_
  rintro ⟨hpath, hgains⟩
  obtain ⟨path, hmem, rfl⟩ := List.mem_map.mp hpath
  exact ⟨passes_of_mem_directoriesFor hmem, hgains⟩

/-- **What a report changes**: a place has what it had, or it is one of the report's files, or there
is a new directory on the way of the report's directory. -/
theorem find?_write_cases (files : FileTree) (directory : Path) (report : Report) (k : Location) :
    (report.write files directory).1.find? k = files.find? k ∨
      (∃ file ∈ report, k = files.locationOf (directory.join file.path)) ∨
      directory.Passes files.workingDirectory k ∧
        files.GainsDirectory (report.write files directory).1 k := by
  by_cases hne : report = []
  · rw [hne, write_nil]
    exact .inl rfl
  by_cases hfile : ∃ file ∈ report, k = files.locationOf (directory.join file.path)
  · exact .inr (.inl hfile)
  have hout : ∀ file ∈ report, k ≠ files.locationOf (directory.join file.path) :=
    fun file hmem heq => hfile ⟨file, hmem, heq⟩
  have hseen := runSteps_mem_statesOf files (report.steps files directory)
  rw [steps_eq hne] at hseen
  unfold write
  rw [steps_eq hne]
  rcases mem_statesOf_append hseen with hmade | ⟨made, hmade, hwriting⟩
  · exact (find?_made_writing hmade (mem_statesOf_self _ _) hout).imp_right .inr
  · exact (find?_made_writing (mem_statesOf_of_runSteps hmade) hwriting hout).imp_right .inr

/-- What exists stays as it is, apart from the files of the report. -/
theorem find?_write (hk : files.find? k = some x)
    (hout : ∀ file ∈ report, k ≠ files.locationOf (directory.join file.path)) :
    (report.write files directory).1.find? k = some x := by
  rcases find?_write_cases files directory report k with hsame | ⟨file, hfile, heq⟩ | ⟨-, hfree, -⟩
  · rw [hsame, hk]
  · exact absurd heq (hout file hfile)
  · rw [hk] at hfree
    cases hfree

/-- **A report written again changes nothing**, and it is stopped again where it was stopped. -/
theorem write_again (files : FileTree) (directory : Path) (report : Report) :
    let after := (report.write files directory).1
    (report.write after directory).2.isOk = (report.write files directory).2.isOk ∧
      ∀ l, (report.write after directory).1.find? l = after.find? l := by
  by_cases hne : report = []
  · rw [hne]
    exact ⟨rfl, fun l => rfl⟩
  unfold write
  rw [steps_eq hne, runSteps_append]
  split
  · -- the directories were made, and are found
    rename_i made hmade
    have hthere : directory.isEmpty = true ∨ made.isDirectory directory = true := by
      cases hempty : directory.isEmpty with
      | true => exact .inl rfl
      | false => exact .inr (isDirectory_of_runSteps_ensuring hempty hmade)
    have hsame := sameDirectories_of_writes (writes_writing directory report) made
    have hthere' := hthere.imp_right (isDirectory_of_keepsDirectories hsame.1)
    obtain ⟨hok, hfind⟩ := runSteps_writes (writes_writing directory report) hsame
    dsimp only
    rw [steps_eq hne, runSteps_append, runSteps_ensuring_of_isDirectory hthere']
    refine ⟨hok, fun l => ?_⟩
    rcases hfind l with heq | ⟨heq, -⟩
    · exact heq
    · exact heq
  · rename_i made e hstopped
    obtain ⟨e', hagain⟩ := runSteps_directoriesFor_again hstopped
    dsimp only
    rw [steps_eq hne, runSteps_append, hagain]
    exact ⟨rfl, fun l => rfl⟩

/-! ## Reading a report back -/

/-- Every file of a report lies under a name in the directory itself. -/
def Plain (report : Report) : Prop :=
  ∀ file ∈ report, ∃ name, file.path = ⟨[name]⟩ ∧ Path.IsName name

/-- The content of a report's last entry for a path. -/
def lastContent? (report : Report) (path : Path) : Option String :=
  (report.reverse.find? (·.path = path)).map ReportFile.content

theorem lastContent?_cons (file : ReportFile) (report : Report) (path : Path) :
    lastContent? (file :: report) path =
      (report.lastContent? path).or (if file.path = path then some file.content else none) := by
  unfold lastContent?
  rw [List.reverse_cons, List.find?_append, Option.map_or, List.find?_singleton]
  by_cases heq : file.path = path <;> simp [heq]

theorem lastContent?_eq_none_iff {path : Path} :
    report.lastContent? path = none ↔ ∀ file ∈ report, file.path ≠ path := by
  simp [lastContent?]

theorem exists_lastContent? {file : ReportFile} (hfile : file ∈ report) :
    ∃ content, report.lastContent? file.path = some content :=
  Option.ne_none_iff_exists'.mp fun hnone => lastContent?_eq_none_iff.mp hnone file hfile rfl

/-- Different names lead to different places. -/
theorem locationOf_join_ne {file other : ReportFile} (hplain : report.Plain)
    (hfile : file ∈ report) (hother : other ∈ report) (hne : other.path ≠ file.path)
    (t : FileTree) (directory : Path) :
    t.locationOf (directory.join file.path) ≠ t.locationOf (directory.join other.path) := by
  obtain ⟨name, hpath, hname⟩ := hplain file hfile
  obtain ⟨name', hpath', hname'⟩ := hplain other hother
  obtain ⟨l, hl⟩ := exists_locationOf_join (t := t) (d := directory) hname
  obtain ⟨l', hl'⟩ := exists_locationOf_join (t := t) (d := directory) hname'
  rw [hpath, hpath'] at hne ⊢
  rw [hl, hl']
  intro heq
  exact hne (by rw [(List.append_singleton_inj.mp heq).2])

/-- **The last entry for a path is what its file holds.** -/
theorem readFile_of_writing {path : Path} {content : String} (hplain : report.Plain)
    (h : runSteps files (writing directory report) = (s, .ok ()))
    (hlast : report.lastContent? path = some content) :
    s.readFile (directory.join path) = .ok content.toUTF8 := by
  induction report generalizing files with
  | nil => cases hlast
  | cons file rest ih =>
      have hrest : Plain rest := fun other hother => hplain other (List.mem_cons_of_mem _ hother)
      rw [writing_eq, List.map_cons] at h
      cases hrun : (writeStep directory file).step.run files with
      | error cause =>
          rw [runSteps_cons_error hrun] at h
          cases h
      | ok made =>
          rw [runSteps_cons_ok hrun] at h
          rw [lastContent?_cons] at hlast
          cases hlater : lastContent? rest path with
          | some last =>
              rw [hlater] at hlast
              cases hlast
              exact ih hrest h hlater
          | none =>
              rw [hlater, Option.none_or, Option.ite_none_right_eq_some] at hlast
              obtain ⟨rfl, hcontent⟩ := hlast
              cases hcontent
              -- the files that are written later have other places
              have hseen := mem_statesOf_of_runSteps h
              have hread := readFile_of_writeFile hrun
              have hkept : s.find? (made.locationOf (directory.join file.path)) =
                  made.find? (made.locationOf (directory.join file.path)) :=
                find?_writing hseen fun other hother =>
                  locationOf_join_ne hplain List.mem_cons_self (List.mem_cons_of_mem _ hother)
                    (lastContent?_eq_none_iff.mp hlater other hother) made directory
              exact readFile_of_keepsDirectories (keepsDirectories_of_mem_statesOf hseen) hread
                (hkept.trans (readFile_eq_ok_iff.mp hread).2)

/-- The files of a report are told apart by their names. -/
structure Named (report : Report) : Prop where
  names : ∀ file ∈ report, ∃ name, file.path = ⟨[name]⟩ ∧ Path.IsName name
  distinct : (report.map ReportFile.path).Nodup

/-- Where names are told apart, the last entry for one is the only one. -/
theorem Named.lastContent?_eq (hnamed : report.Named) {file : ReportFile} (hfile : file ∈ report) :
    report.lastContent? file.path = some file.content := by
  have hdistinct := hnamed.distinct
  clear hnamed
  induction report with
  | nil => cases hfile
  | cons first rest ih =>
      rw [List.map_cons, List.nodup_cons] at hdistinct
      rw [lastContent?_cons]
      rcases List.mem_cons.mp hfile with rfl | hrest
      · have hnone : lastContent? rest file.path = none :=
          lastContent?_eq_none_iff.mpr fun other hother heq =>
            hdistinct.1 (heq ▸ List.mem_map_of_mem hother)
        rw [hnone, Option.none_or, if_pos rfl]
      · rw [ih hrest hdistinct.2, Option.some_or]

/-- **A report that was written can be read back.** -/
theorem readFile_of_write (hnamed : report.Named)
    (h : report.write files directory = (s, .ok ())) :
    ∀ file ∈ report, s.readFile (directory.join file.path) = .ok file.content.toUTF8 := by
  by_cases hne : report = []
  · rw [hne]
    exact fun file hfile => absurd hfile List.not_mem_nil
  · unfold write at h
    rw [steps_eq hne, runSteps_append] at h
    split at h
    · exact fun file hfile => readFile_of_writing hnamed.names h (hnamed.lastContent?_eq hfile)
    · cases h

theorem named_of_paths (names : List String)
    (hpaths : report.map ReportFile.path = names.map Path.ofText) (hdistinct : names.Nodup)
    (hnames : ∀ name ∈ names, Path.ofText name = ⟨[name]⟩ ∧ Path.IsName name) : report.Named where
  names file hfile := by
    have hmem : file.path ∈ names.map Path.ofText := by
      rw [← hpaths]
      exact List.mem_map_of_mem hfile
    obtain ⟨name, hname, hpath⟩ := List.mem_map.mp hmem
    exact ⟨name, hpath.symm.trans (hnames name hname).1, (hnames name hname).2⟩
  distinct := by
    rw [hpaths]
    refine List.pairwise_map.mpr (hdistinct.imp_of_mem fun {a b} ha hb hne heq => hne ?_)
    rw [(hnames a ha).1, (hnames b hb).1] at heq
    exact (List.cons.inj (Path.mk.inj heq)).1

theorem named_ofComparison (e : Assessment) : (ofComparison e).Named := by
  unfold ofComparison
  split
  · exact named_of_paths [] rfl (by decide) (by decide)
  · exact named_of_paths [comparisonFileName, comparisonTextFileName] rfl (by decide)
      (by decide)

theorem named_full (e : Assessment) (now : Timestamp) : (full e now).Named := by
  unfold full ofComparison
  split
  · exact named_of_paths [summaryFileName, statisticsFileName, hintsFileName] rfl
      (by decide) (by decide)
  · exact named_of_paths [comparisonFileName, comparisonTextFileName, summaryFileName,
      statisticsFileName, hintsFileName] rfl (by decide) (by decide)

end Report

/-! ## Ends of runs -/

namespace Outcome

@[simp] theorem exitCode_after (lines : List Line) (o : Outcome) :
    (o.after lines).exitCode = o.exitCode := rfl

@[simp] theorem exitCode_afterErrors (lines : List Line) (o : Outcome) :
    (o.afterErrors lines).exitCode = o.exitCode := rfl

@[simp] theorem files_after (lines : List Line) (o : Outcome) :
    (o.after lines).files = o.files := rfl

@[simp] theorem files_afterErrors (lines : List Line) (o : Outcome) :
    (o.afterErrors lines).files = o.files := rfl

end Outcome

end BenchGate
