import BenchGate.Promotion
import BenchGate.Proofs.Files.Directories

/-!
# What promotion does to the files

A promotion reads the results, makes the directories of the baseline, writes a copy beside the
baseline and moves it over the baseline. Each of the four can fail, and what it has done by then
stays. So there are five ends, and everything here is read off them:

* the baseline's location holds what it held until the move, and the whole copy from then on;
* nothing but the baseline and the staging file beside it is changed;
* a promotion that went through can be repeated.

There is one place where making directories matters to the baseline: a path such as `a/../a` passes
its own end, and if nothing is there, a directory is made of it.
-/

namespace BenchGate

open FileTree FileStep

variable {files s after : FileTree} {current baseline p : Path} {k : Location}

/-! ## The staging file -/

theorem exists_locationFrom_eq (home : Location) (h : p.EndsInName) :
    ∃ above, locationFrom home p = above ++ [p.segments.getLastD ""] := by
  rcases List.eq_nil_or_concat p.segments with hnil | ⟨front, name, hconcat⟩
  · rw [Path.EndsInName, hnil] at h
    exact absurd h (by decide)
  · rw [List.concat_eq_append] at hconcat
    rw [Path.EndsInName, hconcat, List.getLastD_concat] at h
    refine ⟨front.foldl Location.step (p.start home), ?_⟩
    rw [locationFrom, hconcat, List.foldl_append, List.getLastD_concat]
    exact Location.step_name h _

theorem isName_append_tmp (name : String) : Path.IsName (name ++ ".tmp") := by
  have hlength : 4 ≤ (name ++ ".tmp").length := by
    rw [String.length_append]
    exact Nat.le_add_left _ _
  have hne : ∀ short : String, short.length < 4 → name ++ ".tmp" ≠ short := by
    intro short hshort heq
    rw [heq] at hlength
    omega
  have hstays : Path.stays (name ++ ".tmp") = false := by
    simp [Path.stays, hne "" (by decide), hne "." (by decide)]
  exact ⟨hstays, hne ".." (by decide)⟩

theorem stagingPath_getLastD (baseline : Path) :
    (stagingPath baseline).segments.getLastD "" = baseline.segments.getLastD "" ++ ".tmp" := by
  rw [stagingPath, Path.appendText, List.getLastD_concat]

/-- The staging file is never the baseline. -/
theorem locationOf_stagingPath_ne (files : FileTree) (h : baseline.EndsInName) :
    files.locationOf (stagingPath baseline) ≠ files.locationOf baseline := by
  intro heq
  have hstaging : (stagingPath baseline).EndsInName := by
    rw [Path.EndsInName, stagingPath_getLastD]
    exact isName_append_tmp _
  obtain ⟨above, habove⟩ := exists_locationFrom_eq files.workingDirectory hstaging
  obtain ⟨above', habove'⟩ := exists_locationFrom_eq files.workingDirectory h
  rw [FileTree.locationOf, FileTree.locationOf, habove, habove', stagingPath_getLastD] at heq
  have hname := congrArg String.length (List.singleton_inj.mp (List.append_inj_right' heq rfl))
  rw [String.length_append] at hname
  exact absurd hname (by simp)

/-! ## The ends of a promotion -/

/-- The steps that make the directory of the baseline. -/
def directorySteps (files : FileTree) (baseline : Path) : List (Guarded PromotionError) :=
  match baseline.parent? with
  | none => []
  | some parent => ensuring (.directory parent) (files.directoriesFor parent)

/-- Writing the copy beside the baseline. -/
def copyStep (baseline : Path) (content : ByteArray) : Guarded PromotionError :=
  ⟨.write (stagingPath baseline) content, .staging (stagingPath baseline)⟩

/-- Moving the copy over the baseline. -/
def moveStep (baseline : Path) : Guarded PromotionError :=
  ⟨.move (stagingPath baseline) baseline, .replacing baseline⟩

theorem promotionSteps_eq (files : FileTree) (baseline : Path) (content : ByteArray) :
    promotionSteps files baseline content =
      directorySteps files baseline ++ [copyStep baseline content, moveStep baseline] := by
  unfold promotionSteps directorySteps
  cases baseline.parent? <;> rfl

/-- The results were read, and a copy of them lies beside the baseline. -/
structure Stages (files : FileTree) (current baseline : Path) (content : ByteArray)
    (made staged : FileTree) : Prop where
  read : files.readFile current = .ok content
  directories : runSteps files (directorySteps files baseline) = (made, .ok ())
  write : made.writeFile (stagingPath baseline) content = .ok staged

/-- How a promotion can end. -/
inductive PromotionEnd (files : FileTree) (current baseline : Path) :
    FileTree × Except PromotionError Unit → Prop where
  | unreadable {cause : FileError} :
      files.readFile current = .error cause →
      PromotionEnd files current baseline (files, .error (.reading current cause))
  | noDirectory {content : ByteArray} {made : FileTree} {parent : Path} {cause : FileError} :
      files.readFile current = .ok content →
      runSteps files (directorySteps files baseline) =
        (made, .error (.directory parent cause)) →
      PromotionEnd files current baseline (made, .error (.directory parent cause))
  | unstaged {content : ByteArray} {made : FileTree} {cause : FileError} :
      files.readFile current = .ok content →
      runSteps files (directorySteps files baseline) = (made, .ok ()) →
      made.writeFile (stagingPath baseline) content = .error cause →
      PromotionEnd files current baseline (made, .error (.staging (stagingPath baseline) cause))
  | unreplaced {content : ByteArray} {made staged : FileTree} {cause : FileError} :
      Stages files current baseline content made staged →
      staged.moveFile (stagingPath baseline) baseline = .error cause →
      PromotionEnd files current baseline (staged, .error (.replacing baseline cause))
  | replaced {content : ByteArray} {made staged after : FileTree} :
      Stages files current baseline content made staged →
      staged.moveFile (stagingPath baseline) baseline = .ok after →
      PromotionEnd files current baseline (after, .ok ())

theorem directorySteps_error {e : PromotionError}
    (h : runSteps files (directorySteps files baseline) = (s, .error e)) :
    ∃ parent cause, e = .directory parent cause := by
  obtain ⟨g, hg, cause, rfl⟩ := exists_failure_of_runSteps h
  unfold directorySteps at hg
  split at hg
  · cases hg
  · rename_i parent _
    obtain ⟨path, -, rfl⟩ := List.mem_map.mp hg
    exact ⟨parent, cause, rfl⟩

/-- **A promotion ends in one of five ways.** -/
theorem promote_ends (files : FileTree) (current baseline : Path) :
    PromotionEnd files current baseline (promote files current baseline) := by
  unfold promote
  split
  · rename_i cause hread
    exact .unreadable hread
  · rename_i content hread
    rw [promotionSteps_eq, runSteps_append]
    split
    · rename_i made hmade
      cases hwrite : (copyStep baseline content).step.run made with
      | error cause =>
          rw [runSteps_cons_error hwrite]
          exact .unstaged hread hmade hwrite
      | ok staged =>
          rw [runSteps_cons_ok hwrite]
          have hstages : Stages files current baseline content made staged :=
            ⟨hread, hmade, hwrite⟩
          cases hmove : (moveStep baseline).step.run staged with
          | error cause =>
              rw [runSteps_cons_error hmove]
              exact .unreplaced hstages hmove
          | ok after =>
              rw [runSteps_cons_ok hmove]
              exact .replaced hstages hmove
    · rename_i made e hmade
      obtain ⟨parent, cause, rfl⟩ := directorySteps_error hmade
      exact .noDirectory hread hmade

/-! ## What can be seen of a promotion -/

/-- What someone who looks on can see: the directories being made, a copy being written, which may
have any bytes so far, or the baseline replaced. -/
inductive PromotionView (files : FileTree) (current baseline : Path) (s : FileTree) : Prop where
  | preparing :
      s ∈ statesOf files (directorySteps files baseline) → PromotionView files current baseline s
  | copying {part : ByteArray} {made : FileTree} :
      runSteps files (directorySteps files baseline) = (made, .ok ()) →
      made.writeFile (stagingPath baseline) part = .ok s → PromotionView files current baseline s
  | replaced {content : ByteArray} {made staged : FileTree} :
      Stages files current baseline content made staged →
      staged.moveFile (stagingPath baseline) baseline = .ok s →
      PromotionView files current baseline s

theorem promotionView_of_mem (h : s ∈ promotionStates files current baseline) :
    PromotionView files current baseline s := by
  unfold promotionStates at h
  split at h
  · rw [List.mem_singleton.mp h]
    exact .preparing (mem_statesOf_self _ _)
  · rename_i content hread
    rw [promotionSteps_eq] at h
    rcases mem_statesOf_append h with hbefore | ⟨made, hmade, hlater⟩
    · exact .preparing hbefore
    · -- what is seen before the copy is begun belongs to the time before
      have hmem := mem_statesOf_of_runSteps hmade
      cases hwrite : (copyStep baseline content).step.run made with
      | error cause =>
          rw [statesOf_cons_error hwrite] at hlater
          rw [List.mem_singleton.mp hlater]
          exact .preparing hmem
      | ok staged =>
          rw [statesOf_cons_ok hwrite, List.cons_append, List.mem_cons,
            List.mem_append] at hlater
          rcases hlater with rfl | hmid | hlast
          · exact .preparing hmem
          · obtain ⟨path, _, part, hstep, hpart⟩ := exists_write_of_midway hmid
            cases hstep
            exact .copying hmade hpart
          · cases hmove : (moveStep baseline).step.run staged with
            | error cause =>
                rw [statesOf_cons_error hmove] at hlast
                rw [List.mem_singleton.mp hlast]
                exact .copying hmade hwrite
            | ok after =>
                rw [statesOf_cons_ok hmove] at hlast
                rcases List.mem_cons.mp hlast with rfl | hafter
                · exact .copying hmade hwrite
                · rw [List.mem_singleton.mp hafter]
                  exact .replaced ⟨hread, hmade, hwrite⟩ hmove

/-- The last tree that can be seen is the one that the promotion leaves. -/
theorem promote_mem_promotionStates (files : FileTree) (current baseline : Path) :
    (promote files current baseline).1 ∈ promotionStates files current baseline := by
  unfold promote promotionStates
  cases files.readFile current with
  | error cause => exact List.mem_singleton_self files
  | ok content => exact runSteps_mem_statesOf files _

/-! ## What each part changes -/

/-- **Making the directories changes nothing but places on the way to the baseline**, and only where
there was nothing. -/
theorem find?_directorySteps (h : s ∈ statesOf files (directorySteps files baseline))
    (k : Location) :
    s.find? k = files.find? k ∨
      k ∈ baseline.waypoints files.workingDirectory ∧ files.GainsDirectory s k := by
  unfold directorySteps at h
  split at h
  · rw [List.mem_singleton.mp h]
    exact .inl rfl
  · rename_i parent hparent
    rcases find?_ensuring h k with hsame | ⟨hk, hgains⟩
    · exact .inl hsame
    · obtain ⟨path, hpath, rfl⟩ := List.mem_map.mp hk
      have hnonempty : parent.isEmpty = false := by
        rw [Bool.eq_false_iff]
        intro hempty
        rw [directoriesFor_of_isEmpty hempty] at hpath
        cases hpath
      exact .inr ⟨Path.mem_waypoints_of_parent? hparent hnonempty
        (passes_of_mem_directoriesFor hpath), hgains⟩

theorem sameFile_directorySteps (h : s ∈ statesOf files (directorySteps files baseline))
    (k : Location) : files.SameFile s k := by
  intro content
  rcases find?_directorySteps h k with hsame | ⟨-, hfree, hdir⟩
  · rw [hsame]
  · rw [hfree, hdir]
    simp

section Staging

variable {content : ByteArray} {made staged : FileTree}

theorem find?_copying (hmade : runSteps files (directorySteps files baseline) = (made, .ok ()))
    (hwrite : made.writeFile (stagingPath baseline) content = .ok s) (k : Location) :
    s.find? k = if k = files.locationOf (stagingPath baseline) then some (.file content)
      else made.find? k := by
  have hkeep := keepsDirectories_of_mem_statesOf (mem_statesOf_of_runSteps hmade)
  rw [find?_writeFile hwrite, hkeep.locationOf]

theorem Stages.keepsDirectories (h : Stages files current baseline content made staged) :
    files.KeepsDirectories staged :=
  (keepsDirectories_of_mem_statesOf (mem_statesOf_of_runSteps h.directories)).trans
    (keepsDirectories_writeFile h.write)

theorem Stages.find? (h : Stages files current baseline content made staged) (k : Location) :
    staged.find? k = if k = files.locationOf (stagingPath baseline) then some (.file content)
      else made.find? k := find?_copying h.directories h.write k

theorem Stages.find?_moved (h : Stages files current baseline content made staged)
    (hmove : staged.moveFile (stagingPath baseline) baseline = .ok after) (k : Location) :
    after.find? k = if k = files.locationOf baseline then some (.file content)
      else if k = files.locationOf (stagingPath baseline) then none else made.find? k := by
  obtain ⟨moved, hmoved, hfind⟩ := find?_moveFile hmove
  simp only [h.keepsDirectories.locationOf] at hmoved hfind
  rw [h.find?, if_pos rfl] at hmoved
  cases hmoved
  rw [hfind, h.find?]
  split
  · rfl
  · split
    · rfl
    · rfl

/-- A file that was moved over the baseline was moved to a name. -/
theorem endsInName_of_moveFile
    (hmove : staged.moveFile (stagingPath baseline) baseline = .ok after) :
    baseline.EndsInName := (moveFile_eq_ok_iff.mp hmove).2.1.endsInName

end Staging

/-! ## The location of the baseline -/

/-- The location of the baseline holds what it held, or the path passes its own end, nothing was
there, and now a directory is. -/
def FileTree.KeepsBaseline (files s : FileTree) (baseline : Path) : Prop :=
  s.find? (files.locationOf baseline) = files.find? (files.locationOf baseline) ∨
    files.locationOf baseline ∈ baseline.waypoints files.workingDirectory ∧
      files.GainsDirectory s (files.locationOf baseline)

/-- The location of the baseline holds all the bytes that the current results had. -/
def FileTree.HasPromoted (files s : FileTree) (current baseline : Path) : Prop :=
  ∃ content, files.readFile current = .ok content ∧
    s.find? (files.locationOf baseline) = some (.file content)

theorem keepsBaseline_of_copying {part : ByteArray} {made : FileTree}
    (hname : baseline.EndsInName)
    (hmade : runSteps files (directorySteps files baseline) = (made, .ok ()))
    (hwrite : made.writeFile (stagingPath baseline) part = .ok s) :
    files.KeepsBaseline s baseline := by
  have hne := locationOf_stagingPath_ne files hname
  have hsame : s.find? (files.locationOf baseline) = made.find? (files.locationOf baseline) := by
    rw [find?_copying hmade hwrite, if_neg (Ne.symm hne)]
  unfold FileTree.KeepsBaseline FileTree.GainsDirectory
  rw [hsame]
  exact find?_directorySteps (mem_statesOf_of_runSteps hmade) _

theorem Stages.hasPromoted {content : ByteArray} {made staged : FileTree}
    (h : Stages files current baseline content made staged)
    (hmove : staged.moveFile (stagingPath baseline) baseline = .ok after) :
    files.HasPromoted after current baseline :=
  ⟨content, h.read, by rw [h.find?_moved hmove, if_pos rfl]⟩

/-- At any time the baseline is what it was, or the whole copy. -/
theorem baseline_of_mem_promotionStates (hname : baseline.EndsInName)
    (h : s ∈ promotionStates files current baseline) :
    files.KeepsBaseline s baseline ∨ files.HasPromoted s current baseline := by
  cases promotionView_of_mem h with
  | preparing hmem => exact .inl (find?_directorySteps hmem _)
  | copying hmade hwrite => exact .inl (keepsBaseline_of_copying hname hmade hwrite)
  | replaced hstages hmove => exact .inr (hstages.hasPromoted hmove)

theorem exists_stages_of_promote (h : promote files current baseline = (after, .ok ())) :
    ∃ content made staged, Stages files current baseline content made staged ∧
      staged.moveFile (stagingPath baseline) baseline = .ok after := by
  have hend := promote_ends files current baseline
  rw [h] at hend
  cases hend with
  | replaced hstages hmove => exact ⟨_, _, _, hstages, hmove⟩

theorem hasPromoted_of_promote (h : promote files current baseline = (after, .ok ())) :
    files.HasPromoted after current baseline := by
  obtain ⟨content, made, staged, hstages, hmove⟩ := exists_stages_of_promote h
  exact hstages.hasPromoted hmove

theorem keepsBaseline_of_promote_error {e : PromotionError} (hname : baseline.EndsInName)
    (h : promote files current baseline = (after, .error e)) :
    files.KeepsBaseline after baseline := by
  have hend := promote_ends files current baseline
  rw [h] at hend
  cases hend with
  | unreadable _ => exact .inl rfl
  | noDirectory _ hmade => exact find?_directorySteps (mem_statesOf_of_runSteps hmade) _
  | unstaged _ hmade _ => exact find?_directorySteps (mem_statesOf_of_runSteps hmade) _
  | unreplaced hstages _ =>
      exact keepsBaseline_of_copying hname hstages.directories hstages.write

/--
**The baseline is replaced at once.** Whenever someone looks, its location holds what it held or all
the bytes of the current results: the bytes after a promotion that went through, what it held after
one that failed. Only a path that passes its own end, where nothing is, can have a directory made
there.
-/
theorem promote_replaces_at_once (files : FileTree) (current : Path) {baseline : Path}
    (hname : baseline.EndsInName) :
    (∀ s ∈ promotionStates files current baseline,
      files.KeepsBaseline s baseline ∨ files.HasPromoted s current baseline) ∧
    (promote files current baseline).1 ∈ promotionStates files current baseline ∧
    match promote files current baseline with
    | (after, .ok ()) => files.HasPromoted after current baseline
    | (after, .error _) => files.KeepsBaseline after baseline := by
  refine ⟨fun s hs => baseline_of_mem_promotionStates hname hs,
    promote_mem_promotionStates files current baseline, ?_⟩
  split
  · rename_i after hok
    exact hasPromoted_of_promote hok
  · rename_i after e herror
    exact keepsBaseline_of_promote_error hname herror

/-- A tree with some files in its root. -/
def FileTree.ofTexts (texts : List (String × String)) : FileTree :=
  texts.foldl (fun t file => t.insert [file.1] (.file file.2.toUTF8)) .empty

/-- The results may lie in the staging file itself. -/
theorem promote_replaces_at_once_staging :
    let files := FileTree.ofTexts [("b.json", "[1]"), ("b.json.tmp", "[2]")]
    (Path.ofText "b.json").EndsInName ∧
      ∀ s ∈ promotionStates files (.ofText "b.json.tmp") (.ofText "b.json"),
        s.find? ["b.json"] = some (.file "[1]".toUTF8) ∨
          s.find? ["b.json"] = some (.file "[2]".toUTF8) := by
  intro files
  have hname : (Path.ofText "b.json").EndsInName := by decide +kernel
  refine ⟨hname, fun s hs => ?_⟩
  have hhere : files.locationOf (.ofText "b.json") = ["b.json"] := by decide +kernel
  have hseen := (promote_replaces_at_once files (.ofText "b.json.tmp") hname).1 s hs
  rw [FileTree.KeepsBaseline, FileTree.HasPromoted, hhere] at hseen
  rcases hseen with (hsame | ⟨hpasses, -⟩) | ⟨content, hread, hnew⟩
  · rw [hsame]
    exact .inl (by decide +kernel)
  · exact absurd hpasses (by decide +kernel)
  · rw [hnew, ← (readFile_eq_ok_iff.mp hread).2]
    exact .inr (by decide +kernel)

/-- The path `a/../a` passes its own end, so a promotion to it that fails leaves a directory. -/
theorem promote_makes_directory_of_baseline :
    let files := FileTree.ofTexts [("current.json", "[1]")]
    let baseline := Path.ofText "a/../a"
    let (after, result) := promote files (.ofText "current.json") baseline
    baseline.EndsInName ∧ after ∈ promotionStates files (.ofText "current.json") baseline ∧
      result.isOk = false ∧ files.find? (files.locationOf baseline) = none ∧
      after.find? (files.locationOf baseline) = some .directory := by
  intro files baseline
  have hseen := promote_mem_promotionStates files (.ofText "current.json") baseline
  exact ⟨by decide +kernel, hseen, by decide +kernel, by decide +kernel, by decide +kernel⟩

/-- Whoever reads the baseline while it is promoted reads the old bytes or the new ones. -/
theorem readFile_of_mem_promotionStates {bytes : ByteArray} (hname : baseline.EndsInName)
    (h : s ∈ promotionStates files current baseline)
    (hp : s.locationOf p = files.locationOf baseline) (hread : s.readFile p = .ok bytes) :
    files.find? (files.locationOf baseline) = some (.file bytes) ∨
      files.readFile current = .ok bytes := by
  have hfile := (readFile_eq_ok_iff.mp hread).2
  rw [hp] at hfile
  rcases baseline_of_mem_promotionStates hname h with (hsame | ⟨-, -, hdir⟩) | ⟨content, hcur, hnew⟩
  · exact .inl (hsame ▸ hfile)
  · rw [hdir] at hfile
    cases hfile
  · rw [hnew] at hfile
    cases hfile
    exact .inr hcur

/-- A path that never goes up does not pass its own end, so its location keeps what it held. -/
theorem FileTree.KeepsBaseline.find?_eq (h : files.KeepsBaseline s baseline)
    (hname : baseline.EndsInName) (hup : ".." ∉ baseline.segments) :
    s.find? (files.locationOf baseline) = files.find? (files.locationOf baseline) := by
  rcases h with hsame | ⟨hpasses, -⟩
  · exact hsame
  · exact absurd hpasses (Path.locationFrom_not_mem_waypoints _ hname hup)

/-! ## Everything else -/

theorem sameFile_of_promote (h : promote files current baseline = (after, .ok ()))
    (hhere : k ≠ files.locationOf baseline)
    (hbeside : k ≠ files.locationOf (stagingPath baseline)) : files.SameFile after k := by
  obtain ⟨content, made, staged, hstages, hmove⟩ := exists_stages_of_promote h
  have hsame := sameFile_directorySteps (mem_statesOf_of_runSteps hstages.directories) k
  intro bytes
  rw [hstages.find?_moved hmove, if_neg hhere, if_neg hbeside]
  exact hsame bytes

/-- No staging file is left. -/
theorem find?_stagingPath_of_promote (h : promote files current baseline = (after, .ok ())) :
    after.find? (files.locationOf (stagingPath baseline)) = none := by
  obtain ⟨content, made, staged, hstages, hmove⟩ := exists_stages_of_promote h
  have hne := locationOf_stagingPath_ne files (endsInName_of_moveFile hmove)
  rw [hstages.find?_moved hmove, if_neg hne, if_pos rfl]

theorem sameFile_of_promote_error {e : PromotionError}
    (h : promote files current baseline = (after, .error e))
    (hk : k ≠ files.locationOf (stagingPath baseline) ∨ ∀ cause, e ≠ .replacing baseline cause) :
    files.SameFile after k := by
  have hend := promote_ends files current baseline
  rw [h] at hend
  cases hend with
  | unreadable _ => exact fun _ => Iff.rfl
  | noDirectory _ hmade => exact sameFile_directorySteps (mem_statesOf_of_runSteps hmade) k
  | unstaged _ hmade _ => exact sameFile_directorySteps (mem_statesOf_of_runSteps hmade) k
  | @unreplaced content made _ cause hstages _ =>
      have hbeside := hk.resolve_right fun hother => hother cause rfl
      have hsame := sameFile_directorySteps (mem_statesOf_of_runSteps hstages.directories) k
      intro bytes
      rw [hstages.find?, if_neg hbeside]
      exact hsame bytes

/-- When the copy cannot be moved, it stays beside the baseline. -/
theorem find?_stagingPath_of_promote_error {cause : FileError}
    (h : promote files current baseline = (after, .error (.replacing baseline cause))) :
    ∃ content, files.readFile current = .ok content ∧
      after.find? (files.locationOf (stagingPath baseline)) = some (.file content) := by
  have hend := promote_ends files current baseline
  rw [h] at hend
  cases hend with
  | unreplaced hstages _ => exact ⟨_, hstages.read, by rw [hstages.find?, if_pos rfl]⟩

/--
**A promotion changes no other file.** When it goes through, the baseline has the bytes of the
current results, no staging file is left, and every other file is as it was. When it fails, every
file is as it was, except that a copy which could not be moved stays in the staging file.
-/
theorem promote_frame (files : FileTree) (current baseline : Path) :
    let here := files.locationOf baseline
    let beside := files.locationOf (stagingPath baseline)
    match promote files current baseline with
    | (after, .ok ()) =>
        files.HasPromoted after current baseline ∧
        (∀ l, l ≠ here → l ≠ beside → files.SameFile after l) ∧ after.find? beside = none
    | (after, .error e) =>
        (∀ l, l ≠ beside → files.SameFile after l) ∧
        ((∀ cause, e ≠ .replacing baseline cause) → files.SameFile after beside) ∧
        ∀ cause, e = .replacing baseline cause → files.find? beside = none →
          ∃ content, files.readFile current = .ok content ∧
            after.find? beside = some (.file content) := by
  intro here beside
  split
  · rename_i after hok
    exact ⟨hasPromoted_of_promote hok,
      fun l hhere hbeside => sameFile_of_promote hok hhere hbeside,
      find?_stagingPath_of_promote hok⟩
  · rename_i after e herror
    refine ⟨fun l hbeside => sameFile_of_promote_error herror (.inl hbeside),
      fun hother => sameFile_of_promote_error herror (.inr hother), ?_⟩
    rintro cause rfl -
    exact find?_stagingPath_of_promote_error herror

/-- Where a directory stands in the way of the baseline the copy is left, and results that lay in
the staging file are gone when they were promoted. -/
theorem promote_changes_stagingFile :
    (let files := (FileTree.ofTexts [("current.json", "[1]")]).insert ["b.json"] .directory
      let (after, result) := promote files (.ofText "current.json") (.ofText "b.json")
      result.isOk = false ∧ files.find? ["b.json.tmp"] = none ∧
        after.find? ["b.json.tmp"] = some (.file "[1]".toUTF8)) ∧
    (let files := FileTree.ofTexts [("b.json.tmp", "[1]")]
      let (after, result) := promote files (.ofText "b.json.tmp") (.ofText "b.json")
      result.isOk = true ∧ files.find? ["b.json.tmp"] = some (.file "[1]".toUTF8) ∧
        after.find? ["b.json.tmp"] = none) := by
  decide +kernel

/-! ## Reading what was promoted -/

theorem keepsDirectories_of_promote (h : promote files current baseline = (after, .ok ())) :
    files.KeepsDirectories after := by
  obtain ⟨content, made, staged, hstages, hmove⟩ := exists_stages_of_promote h
  exact hstages.keepsDirectories.trans (keepsDirectories_moveFile hmove)

theorem readFile_baseline_of_promote {content : ByteArray}
    (h : promote files current baseline = (after, .ok ()))
    (hread : files.readFile current = .ok content) : after.readFile baseline = .ok content := by
  obtain ⟨bytes, made, staged, hstages, hmove⟩ := exists_stages_of_promote h
  have hcontent : bytes = content := Except.ok.inj (hstages.read.symm.trans hread)
  have hreaches : after.Reaches baseline :=
    (moveFile_eq_ok_iff.mp hmove).2.1.of_keepsDirectories (keepsDirectories_moveFile hmove)
  refine readFile_eq_ok_iff.mpr ⟨hreaches, ?_⟩
  rw [(keepsDirectories_of_promote h).locationOf, hstages.find?_moved hmove, if_pos rfl, hcontent]

theorem readFile_of_promote {bytes : ByteArray}
    (h : promote files current baseline = (after, .ok ()))
    (hhere : files.locationOf p ≠ files.locationOf baseline)
    (hbeside : files.locationOf p ≠ files.locationOf (stagingPath baseline))
    (hread : files.readFile p = .ok bytes) : after.readFile p = .ok bytes :=
  readFile_of_keepsDirectories (keepsDirectories_of_promote h) hread
    ((sameFile_of_promote h hhere hbeside bytes).mpr (readFile_eq_ok_iff.mp hread).2)

/-- The results themselves are still there, unless they lay in the staging file. -/
theorem readFile_current_of_promote {content : ByteArray}
    (h : promote files current baseline = (after, .ok ()))
    (hbeside : files.locationOf current ≠ files.locationOf (stagingPath baseline))
    (hread : files.readFile current = .ok content) : after.readFile current = .ok content := by
  by_cases hhere : files.locationOf current = files.locationOf baseline
  · have hkeep := keepsDirectories_of_promote h
    have hfile := (readFile_eq_ok_iff.mp (readFile_baseline_of_promote h hread)).2
    rw [hkeep.locationOf, ← hhere] at hfile
    exact readFile_of_keepsDirectories hkeep hread hfile
  · exact readFile_of_promote h hhere hbeside hread

/-! ## Promoting again -/

theorem promote_of_stages {content : ByteArray} {made staged : FileTree}
    (h : Stages files current baseline content made staged)
    (hmove : staged.moveFile (stagingPath baseline) baseline = .ok after) :
    promote files current baseline = (after, .ok ()) := by
  have hcopy : (copyStep baseline content).step.run made = .ok staged := h.write
  have hlast : (moveStep baseline).step.run staged = .ok after := hmove
  unfold promote
  rw [h.read]
  dsimp only
  rw [promotionSteps_eq, runSteps_append, h.directories]
  dsimp only
  rw [runSteps_cons_ok hcopy, runSteps_cons_ok hlast]
  rfl

/-- Once the directories are made, there are none left to make. -/
theorem directorySteps_again {made : FileTree}
    (h : runSteps files (directorySteps files baseline) = (made, .ok ()))
    (hkeep : made.KeepsDirectories s) :
    runSteps s (directorySteps s baseline) = (s, .ok ()) := by
  unfold directorySteps at h ⊢
  split
  · rfl
  · rename_i parent hparent
    rw [hparent] at h
    refine runSteps_ensuring_of_isDirectory ?_
    cases hempty : parent.isEmpty with
    | true => exact .inl rfl
    | false =>
        exact .inr (isDirectory_of_keepsDirectories hkeep
          (isDirectory_of_runSteps_ensuring hempty h))

/-- **A promotion that went through can be repeated**, with any results. -/
theorem exists_promote_again {content : ByteArray}
    (h : promote files current baseline = (after, .ok ()))
    (hread : after.readFile p = .ok content) :
    ∃ again, promote after p baseline = (again, .ok ()) := by
  obtain ⟨bytes, made, staged, hstages, hmove⟩ := exists_stages_of_promote h
  have hmoved : staged.KeepsDirectories after := keepsDirectories_moveFile hmove
  have hmade : made.KeepsDirectories after :=
    (keepsDirectories_writeFile hstages.write).trans hmoved
  have hkeep : files.KeepsDirectories after := hstages.keepsDirectories.trans hmoved
  -- the staging file can be written, because nothing is there any more
  have hbeside : after.Reaches (stagingPath baseline) :=
    (writeFile_eq_ok_iff.mp hstages.write).1.of_keepsDirectories hmade
  have hfree : after.find? (after.locationOf (stagingPath baseline)) ≠ some .directory := by
    rw [hkeep.locationOf, find?_stagingPath_of_promote h]
    simp
  obtain ⟨staged', hwrite⟩ : ∃ staged', after.writeFile (stagingPath baseline) content =
      .ok staged' := ⟨_, writeFile_eq_ok_iff.mpr ⟨hbeside, hfree, rfl⟩⟩
  have hstages' : Stages after p baseline content after staged' :=
    ⟨hread, directorySteps_again hstages.directories hmade, hwrite⟩
  -- and it can be moved, because the baseline is a file
  have hstaged : after.KeepsDirectories staged' := keepsDirectories_writeFile hwrite
  have hhere : after.Reaches baseline :=
    (moveFile_eq_ok_iff.mp hmove).2.1.of_keepsDirectories hmoved
  have hbaseline : staged'.find? (staged'.locationOf baseline) ≠ some .directory := by
    have hne := locationOf_stagingPath_ne after hhere.endsInName
    rw [hstaged.locationOf, find?_writeFile hwrite, if_neg (Ne.symm hne), hkeep.locationOf,
      hstages.find?_moved hmove, if_pos rfl]
    simp
  have hcopy : staged'.find? (staged'.locationOf (stagingPath baseline)) =
      some (.file content) := by
    rw [hstaged.locationOf, find?_writeFile hwrite, if_pos rfl]
  exact ⟨_, promote_of_stages hstages' (moveFile_eq_ok_iff.mpr
    ⟨hbeside.of_keepsDirectories hstaged, hhere.of_keepsDirectories hstaged, hbaseline,
      content, hcopy, rfl⟩)⟩

end BenchGate
