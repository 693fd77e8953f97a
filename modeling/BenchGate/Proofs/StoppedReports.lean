import BenchGate.Proofs.Promotion
import BenchGate.Proofs.Report

/-!
# Reports that are stopped

Writing a report can be stopped before its first file, where the directory cannot be made, and at
any file, where a directory stands in its place or its name cannot be looked up. Nothing is taken
back then. So a report always leaves the first of its files, and all of them if nothing stops it:
each holds the content of its last entry among those, and everything else is as it was, apart from
new directories on the way of the report's directory.
-/

namespace BenchGate.Report

variable {files made after : FileTree} {directory : Path} {report written : Report}
  {e : ReportError}

/-- What a tree holds once files are written into a directory, and nothing else. -/
structure Fills (written : Report) (files after : FileTree) (directory : Path) : Prop where
  /-- Each file holds the content of its last entry. -/
  holds : ∀ file ∈ written, ∃ content, written.lastContent? file.path = some content ∧
    after.readFile (directory.join file.path) = .ok content.toUTF8
  /-- Every other place has what it had, or there is a new directory on the way, where nothing
  was. -/
  others : ∀ k, (∀ file ∈ written, k ≠ files.locationOf (directory.join file.path)) →
    after.find? k = files.find? k ∨
      directory.Passes files.workingDirectory k ∧ files.GainsDirectory after k

/-- Before which entry a report is stopped, and why. What stops it is still in the tree that is
left: a directory on the way cannot be made there, or the file of the entry cannot be written. -/
inductive StopsAt (report : Report) (files after : FileTree) (directory : Path) :
    Nat → ReportError → Prop where
  | directory {path : Path} {cause : FileError} :
      path ∈ files.directoriesFor directory →
      (FileStep.ensureDirectory path).run after = .error cause →
      after.isDirectory directory = false →
      StopsAt report files after directory 0 (.directory directory cause)
  | file {n : Nat} {file : ReportFile} {cause : FileError} :
      report[n]? = some file →
      after.writeFile (directory.join file.path) file.content.toUTF8 = .error cause →
      StopsAt report files after directory n (.file (directory.join file.path) cause)

theorem Plain.take (h : report.Plain) (n : Nat) : Plain (report.take n) :=
  fun file hfile => h file (List.mem_of_mem_take hfile)

theorem fills_of_writing (hplain : written.Plain)
    (hmade : made ∈ statesOf files (ensuring (ReportError.directory directory)
      (files.directoriesFor directory)))
    (hwritten : runSteps made (writing directory written) = (after, .ok ())) :
    written.Fills files after directory where
  holds file hfile := by
    obtain ⟨content, hlast⟩ := exists_lastContent? hfile
    exact ⟨content, hlast, readFile_of_writing hplain hwritten hlast⟩
  others _ hout := find?_made_writing hmade (mem_statesOf_of_runSteps hwritten) hout

/-- A directory that could not be made is none. -/
theorem stopsAt_of_ensuring
    (h : runSteps files (ensuring (ReportError.directory directory)
      (files.directoriesFor directory)) = (made, .error e)) :
    report.StopsAt files made directory 0 e := by
  obtain ⟨done, g, rest, cause, hsplit, -, hrun, rfl⟩ := exists_stop_of_runSteps h
  have hg : g ∈ ensuring (ReportError.directory directory) (files.directoriesFor directory) := by
    rw [hsplit]
    exact List.mem_append_right _ List.mem_cons_self
  obtain ⟨path, hpath, rfl⟩ := List.mem_map.mp hg
  refine .directory hpath hrun (Bool.eq_false_iff.mpr fun hdir => ?_)
  obtain ⟨e', hagain⟩ := runSteps_directoriesFor_again h
  rw [runSteps_ensuring_of_isDirectory (.inr hdir)] at hagain
  cases hagain

/-- The entries before the one that stops a report are written. -/
theorem exists_stop_of_writing
    (h : runSteps made (writing directory report) = (after, .error e)) :
    ∃ n < report.length, report.StopsAt files after directory n e ∧
      runSteps made (writing directory (report.take n)) = (after, .ok ()) := by
  obtain ⟨done, g, rest, cause, hsplit, hdone, hrun, rfl⟩ := exists_stop_of_runSteps h
  rw [writing_eq, List.map_eq_append_iff] at hsplit
  obtain ⟨written, later, rfl, rfl, hlater⟩ := hsplit
  obtain ⟨file, rest, rfl, rfl, rfl⟩ := List.map_eq_cons_iff.mp hlater
  refine ⟨written.length, by simp, .file (by simp) hrun, ?_⟩
  rw [List.take_left]
  exact hdone

/-- **A report writes its files up to the one that stops it, and touches nothing else.** Without
files, nothing happens at all. -/
theorem write_fills_or_stops (files : FileTree) (directory : Path) (hplain : report.Plain) :
    (report = [] → report.write files directory = (files, .ok ())) ∧
    match report.write files directory with
    | (after, .ok ()) => report.Fills files after directory
    | (after, .error e) =>
        ∃ n < report.length, report.StopsAt files after directory n e ∧
          Fills (report.take n) files after directory := by
  refine ⟨fun hnil => by rw [hnil, write_nil], ?_⟩
  by_cases hne : report = []
  · subst hne
    exact fills_of_writing hplain (mem_statesOf_self _ _) rfl
  have hlength : 0 < report.length := List.length_pos_iff.mpr hne
  unfold write
  rw [steps_eq hne, runSteps_append]
  rcases hmade : runSteps files (ensuring (ReportError.directory directory)
    (files.directoriesFor directory)) with ⟨made, e | ⟨⟩⟩
  · -- the directory could not be made
    exact ⟨0, hlength, stopsAt_of_ensuring hmade,
      fills_of_writing (hplain.take 0) (mem_statesOf_of_runSteps hmade) rfl⟩
  · dsimp only
    have hseen := mem_statesOf_of_runSteps hmade
    rcases hwritten : runSteps made (writing directory report) with ⟨after, e | ⟨⟩⟩
    · obtain ⟨n, hn, hstops, hbefore⟩ := exists_stop_of_writing hwritten
      exact ⟨n, hn, hstops, fills_of_writing (hplain.take n) hseen hbefore⟩
    · exact fills_of_writing hplain hseen hwritten

/-- An entry that is written twice, and a directory in the place of the next file. -/
theorem write_fills_or_stops_at_directory :
    let files := (FileTree.ofTexts [("a.txt", "0"), ("c.txt", "0")]).insert ["b.txt"] .directory
    let directory := Path.ofText "new/.."
    let report : Report := [⟨⟨["a.txt"]⟩, "1"⟩, ⟨⟨["a.txt"]⟩, "2"⟩, ⟨⟨["b.txt"]⟩, "3"⟩,
      ⟨⟨["c.txt"]⟩, "4"⟩]
    let e := ReportError.file (.ofText "new/../b.txt") .isADirectory
    report.Plain ∧ ∃ after, report.write files directory = (after, .error e) ∧
      (∃ n < report.length, report.StopsAt files after directory n e ∧
        Fills (report.take n) files after directory) ∧
      after.find? ["a.txt"] = some (.file "2".toUTF8) ∧
      after.find? ["c.txt"] = some (.file "0".toUTF8) := by
  intro files directory report e
  have hplain : report.Plain := by
    simp only [Plain, report, List.forall_mem_cons]
    exact ⟨⟨_, rfl, by decide⟩, ⟨_, rfl, by decide⟩, ⟨_, rfl, by decide⟩, ⟨_, rfl, by decide⟩,
      nofun⟩
  have hstopped : (report.write files directory).2 = .error e := by decide +kernel
  have htwice : (report.write files directory).1.find? ["a.txt"] = some (.file "2".toUTF8) := by
    decide +kernel
  have hlater : (report.write files directory).1.find? ["c.txt"] = some (.file "0".toUTF8) := by
    decide +kernel
  have hfills := write_fills_or_stops files directory hplain
  generalize report.write files directory = result at hstopped htwice hlater hfills ⊢
  obtain ⟨after, r⟩ := result
  cases hstopped
  exact ⟨hplain, after, rfl, hfills.2, htwice, hlater⟩

end BenchGate.Report
