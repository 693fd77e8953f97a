import BenchGate.Proofs.RecordFiles

/-!
# Merging the records of a directory

For a directory without wildcards in its path, the merged results are those of one array: of the
elements of all record files, in the order of a walk. Every entry that is named like a record file
and is no list is skipped with one error, in the same order.
-/

namespace BenchGate

open FileTree

variable {t s : FileTree} {q d : Path} {origin : Origin} {names : List String} {e : Entry}

/-- A tree with some files in it, and the directories on the way to them. -/
def FileTree.ofFiles (files : List (Location × String)) : FileTree :=
  files.foldl (fun t file =>
    (t.insertDirectories file.1.dropLast).insert file.1 (.file file.2.toUTF8)) .empty

/-! ## What one entry contributes -/

namespace Entry

/-- The elements of the list in an entry, or the error for which the entry is skipped. -/
def elements (path : Path) : Entry → Except InputError (List Json)
  | .directory => .error (.reading path (.file .isADirectory))
  | .file bytes =>
    match String.fromUTF8? bytes with
    | none => .error (.reading path .notUtf8)
    | some text =>
      match Json.parse text with
      | .error cause => .error (.parsing path cause)
      | .ok (.array elements) => .ok elements
      | .ok _ => .error (.unexpectedShape path)

/-- What an entry contributes under a path, under which it is not found if that is too long. -/
def contribution (path : Path) (e : Entry) : Except InputError (List Json) :=
  if path.hasFittingLength then e.elements path else .error (.missing path)

end Entry

namespace Results

theorem recordsOfFile_of_look {p : Path} (h : t.look p = .ok e) :
    recordsOfFile t p = (e.elements p).map (List.map Record.ofJson) := by
  have hexists : t.pathExists p = true := by
    unfold pathExists
    rw [h]
  unfold recordsOfFile readJson readText readFile Entry.elements
  rw [if_pos hexists, h, ok_bind]
  cases e with
  | directory => rfl
  | file bytes =>
      dsimp only
      cases String.fromUTF8? bytes with
      | none => rfl
      | some text =>
          dsimp only
          cases Json.parse text with
          | error cause => rfl
          | ok v => cases v <;> rfl

theorem recordsOfFile_within (hq : t.isDirectory q = true) (hnames : Location.Nameable names)
    (hne : names ≠ []) (hfind : t.find? (t.locationOf q ++ names) = some e) :
    recordsOfFile t (within q names) =
      (e.contribution (within q names)).map (List.map Record.ofJson) := by
  unfold Entry.contribution
  split
  · rename_i hfits
    exact recordsOfFile_of_look (look_within hq hnames hne hfind hfits)
  · rename_i hlong
    unfold recordsOfFile readJson
    rw [pathExists_of_long (by simpa using hlong)]
    rfl

/-! ## Merging -/

/-- The results of one array with all elements, and the errors. -/
def merge (origin : Origin) (contributions : List (Except InputError (List Json))) :
    Results × List InputError :=
  (ofJson origin (.array (contributions.flatMap fun c => c.toOption.getD [])),
    contributions.filterMap fun
      | .ok _ => none
      | .error error => some error)

/-- What is merged for a directory under the path at which the search arrives. -/
def contributions (t : FileTree) (d q : Path) : List (Except InputError (List Json)) :=
  ((recordEntries t d).filter fun x => (within q x.1).IsListed).map
    fun x => x.2.contribution (within q x.1)

/-- Where there is room for every path, every entry contributes what it holds. -/
theorem contributions_of_fits
    (hfits : ∀ x ∈ recordEntries t d, (within q x.1).hasFittingLength = true) :
    contributions t d q = (recordEntries t d).map fun x => x.2.elements (within q x.1) := by
  have hall : ((recordEntries t d).filter fun x => (within q x.1).IsListed) =
      recordEntries t d := by
    refine List.filter_eq_self.mpr fun x hx => ?_
    exact decide_eq_true (Path.isListed_of_hasFittingLength (hfits x hx))
  unfold contributions
  rw [hall]
  refine List.map_congr_left fun x hx => ?_
  exact if_pos (hfits x hx)

/-- **The results of a plain directory** are merged from its record files. -/
theorem ofDirectory_of_isPlain (origin : Origin) (h : t.WellNamed) (hd : d.IsPlain)
    (hdir : t.isDirectory d = true) :
    ofDirectory t origin d = .ok (merge origin (match d.searchPath? with
      | none => []
      | some q => contributions t d q)) := by
  unfold ofDirectory
  rw [if_pos hdir, recordFiles_of_isPlain h hd hdir]
  dsimp only
  cases hpath : d.searchPath? with
  | none => rfl
  | some q =>
      have hq := (CanSearch.start hd.segments_ne_nil hdir).of_searched? hpath
      have hread : (((recordEntries t d).filter fun x => (within q x.1).IsListed).map
          fun x => within q x.1).map (recordsOfFile t) =
          (contributions t d q).map (·.map (List.map Record.ofJson)) := by
        unfold contributions
        rw [List.map_map, List.map_map]
        refine List.map_congr_left fun x hx => ?_
        have hmem := (List.mem_filter.mp hx).1
        obtain ⟨⟨hne, hfind⟩, -⟩ := mem_recordEntries.mp hmem
        refine recordsOfFile_within hq.isDirectory ?_ hne (by rwa [hq.location])
        exact h.nameable_of_mem_below (List.mem_filter.mp hmem).1
      dsimp only
      rw [hread, merge, ofJson, List.flatMap_map, List.filterMap_map, List.map_flatMap]
      refine congrArg Except.ok (Prod.ext (congrArg (ofRecords origin) ?_) ?_)
      · refine congrArg (List.flatMap · _) (funext fun c => ?_)
        cases c <;> rfl
      · refine congrArg (List.filterMap · _) (funext fun c => ?_)
        cases c <;> rfl

/-- Only what is named like a record file and lies below the directory is read. -/
theorem ofDirectory_congr (ht : t.WellNamed) (hs : s.WellNamed) (hd : d.IsPlain)
    (htdir : t.isDirectory d = true) (hsdir : s.isDirectory d = true)
    (hentries : recordEntries s d = recordEntries t d) :
    ofDirectory s origin d = ofDirectory t origin d := by
  rw [ofDirectory_of_isPlain _ hs hd hsdir, ofDirectory_of_isPlain _ ht hd htdir]
  unfold contributions
  rw [hentries]

/-- The entries that are merged are told by `find?`. -/
theorem recordEntries_congr (hlocation : s.locationOf d = t.locationOf d)
    (h : ∀ names, names ≠ [] → IsRecordName (names.getLastD "") → ∀ e,
      s.find? (t.locationOf d ++ names) = some e ↔ t.find? (t.locationOf d ++ names) = some e) :
    recordEntries s d = recordEntries t d := by
  unfold recordEntries
  rw [hlocation]
  refine filter_below_congr fun x hname hne => ?_
  exact h x.1 hne (of_decide_eq_true hname) x.2

/-! ## What the results depend on -/

theorem recordsOfFile_of_missing {p : Path} (h : t.pathExists p = false) :
    recordsOfFile t p = .error (.missing p) := by
  unfold recordsOfFile readJson
  rw [h]
  rfl

theorem recordsOfFile_of_sameShape {p : Path} (h : t.SameShape s)
    (hfind : s.find? (t.locationOf p) = t.find? (t.locationOf p)) :
    recordsOfFile s p = recordsOfFile t p := by
  cases hexists : t.pathExists p with
  | true =>
      obtain ⟨e, hlook⟩ := pathExists_iff.mp hexists
      rw [recordsOfFile_of_look hlook,
        recordsOfFile_of_look (look_of_keepsDirectories h.1.keeps hfind hlook)]
  | false =>
      have hmissing := (h.pathExists p).trans hexists
      rw [recordsOfFile_of_missing hexists, recordsOfFile_of_missing hmissing]

/-- **Only the contents of record files count**, whatever the path of the directory is. -/
theorem ofDirectory_of_sameShape (h : t.SameShape s) (ht : t.WellNamed)
    (hfind : t.isDirectory d = true → ∀ paths, recordFiles t d = .ok paths → ∀ p ∈ paths,
      s.find? (t.locationOf p) = t.find? (t.locationOf p)) :
    ofDirectory s origin d = ofDirectory t origin d := by
  unfold ofDirectory
  rw [h.isDirectory]
  split
  · rename_i hdir
    have hfiles : recordFiles s d = recordFiles t d := by
      unfold recordFiles
      rw [h.glob ht]
    rw [hfiles]
    cases hpaths : recordFiles t d with
    | error cause => rfl
    | ok paths =>
        have hsame : paths.map (recordsOfFile s) = paths.map (recordsOfFile t) :=
          List.map_congr_left fun p hp =>
            recordsOfFile_of_sameShape h (hfind hdir paths hpaths p hp)
        dsimp only
        rw [hsame]
  · rfl

/-- The records that are found under a path, which are none if it leads to no list. -/
def recordsAt (t : FileTree) (p : Path) : List Record := (recordsOfFile t p).toOption.getD []

theorem fst_ofDirectory_of_recordFiles {paths : List Path} (hdir : t.isDirectory d = true)
    (hpaths : recordFiles t d = .ok paths) :
    (ofDirectory t origin d).map Prod.fst =
      .ok (ofRecords origin (paths.flatMap (recordsAt t))) := by
  unfold ofDirectory
  rw [if_pos hdir, hpaths]
  dsimp only
  rw [List.flatMap_map]
  rfl

/-- Directories hold no records, and neither do paths that lead nowhere. -/
theorem recordsAt_of_no_file {p : Path} (h : ∀ content, t.look p ≠ .ok (.file content)) :
    recordsAt t p = [] := by
  unfold recordsAt
  cases hlook : t.look p with
  | error cause =>
      have hmissing : t.pathExists p = false := by
        unfold pathExists
        rw [hlook]
      rw [recordsOfFile_of_missing hmissing]
      rfl
  | ok e =>
      rw [recordsOfFile_of_look hlook]
      cases e with
      | directory => rfl
      | file content => exact absurd hlook (h content)

theorem flatMap_recordsAt {paths : List Path} {keep : Path → Bool}
    (h : ∀ p ∈ paths, ∀ content, t.look p = .ok (.file content) → keep p = true) :
    (paths.filter keep).flatMap (recordsAt t) = paths.flatMap (recordsAt t) := by
  refine flatMap_filter_of_nil fun p hp hdrop => recordsAt_of_no_file fun content hlook => ?_
  rw [h p hp content hlook] at hdrop
  cases hdrop

theorem recordsAt_of_keepsDirectories {p : Path} (hkeep : t.KeepsDirectories s)
    (hexists : t.pathExists p = true)
    (hsame : ∀ e, t.find? (t.locationOf p) = some e → s.find? (t.locationOf p) = some e) :
    recordsAt s p = recordsAt t p := by
  obtain ⟨e, hlook⟩ := pathExists_iff.mp hexists
  obtain ⟨x, ht, hfind, -⟩ := look_eq_ok_iff.mp hlook
  rw [location_of_target ht] at hfind
  have hagain := look_of_keepsDirectories hkeep ((hsame e hfind).trans hfind.symm) hlook
  unfold recordsAt
  rw [recordsOfFile_of_look hlook, recordsOfFile_of_look hagain]

/-- **In a tree that has grown, the results are the same**, if record files are as they were and no
path leads to one that led nowhere before. New directories make no difference, whatever they are
called. -/
theorem fst_ofDirectory_of_growsInto (h : t.GrowsInto s) (ht : t.WellNamed) (hs : s.WellNamed)
    (hdir : t.isDirectory d = true)
    (hsame : ∀ l e, IsRecordName (l.getLastD "") → t.find? l = some e → s.find? l = some e)
    (hnew : ∀ paths, recordFiles s d = .ok paths → ∀ p ∈ paths, ∀ content,
      s.look p = .ok (.file content) → t.pathExists p = true) :
    (ofDirectory s origin d).map Prod.fst = (ofDirectory t origin d).map Prod.fst := by
  have hsdir := isDirectory_of_keepsDirectories h.keeps hdir
  have hkept := filter_recordFiles_of_growsInto h ht hs d
  cases hbefore : recordFiles t d with
  | error cause =>
      rw [hbefore] at hkept
      unfold ofDirectory
      rw [if_pos hdir, if_pos hsdir, hbefore]
      cases hafter : recordFiles s d with
      | error cause' =>
          rw [hafter] at hkept
          cases hkept
          rfl
      | ok after =>
          rw [hafter] at hkept
          cases hkept
  | ok before =>
      rw [hbefore] at hkept
      cases hafter : recordFiles s d with
      | error cause =>
          rw [hafter] at hkept
          cases hkept
      | ok after =>
          rw [hafter] at hkept
          have hpaths : after.filter t.pathExists = before.filter t.pathExists :=
            Except.ok.inj hkept
          have hread : ∀ p ∈ before.filter t.pathExists, recordsAt s p = recordsAt t p := by
            intro p hp
            obtain ⟨hmem, hexists⟩ := List.mem_filter.mp hp
            have hname := isRecordName_of_mem_recordFiles ht hbefore hmem
            exact recordsAt_of_keepsDirectories h.keeps hexists fun e => hsame _ e hname
          have hrecords : after.flatMap (recordsAt s) = before.flatMap (recordsAt t) :=
            calc after.flatMap (recordsAt s)
                = (after.filter t.pathExists).flatMap (recordsAt s) :=
                  (flatMap_recordsAt (hnew after hafter)).symm
              _ = (before.filter t.pathExists).flatMap (recordsAt s) := by rw [hpaths]
              _ = (before.filter t.pathExists).flatMap (recordsAt t) := List.flatMap_congr hread
              _ = before.flatMap (recordsAt t) :=
                  flatMap_recordsAt fun p _ content hlook => pathExists_iff.mpr ⟨_, hlook⟩
          rw [fst_ofDirectory_of_recordFiles hdir hbefore,
            fst_ofDirectory_of_recordFiles hsdir hafter, hrecords]

/-! ## The merge is exact -/

/--
**The results of a directory without wildcards in its path** are those of one array: of the elements
of all entries below it that are named like record files, in the order of a walk. Every such entry
that is no list is skipped with one error, in the same order.

That is so if every path below the directory has room. An entry with too long a path of its own is
skipped as missing, and one in a directory with too long a path is passed over. Where an empty
segment follows on nothing but `.`, as in `./`, everything is.
-/
theorem ofDirectory_merges (t : FileTree) (h : t.WellNamed) (origin : Origin) (text : String)
    (hplain : IsPlainText text) (hdir : t.isDirectory (.ofText text) = true) :
    let d := Path.ofText text
    (d.StallsAtHome → ofDirectory t origin d = .ok (merge origin [])) ∧
    (¬ d.StallsAtHome → ∃ q, d.searchPath? = some q ∧ t.locationOf q = t.locationOf d ∧
      ofDirectory t origin d = .ok (merge origin (contributions t d q)) ∧
      ((∀ x ∈ recordEntries t d, (within q x.1).hasFittingLength = true) →
        ofDirectory t origin d =
          .ok (merge origin ((recordEntries t d).map fun x => x.2.elements (within q x.1))))) ∧
    ∀ s : FileTree, s.workingDirectory = t.workingDirectory → (∀ l, s.find? l = t.find? l) →
      ofDirectory s origin d = ofDirectory t origin d := by
  intro d
  have hd : d.IsPlain := Path.isPlain_ofText hplain
  have hstalls := Path.searchPath?_eq_none_iff hd.segments_ne_nil (usable_of_isDirectory hdir).2.2
  have hresults := ofDirectory_of_isPlain origin h hd hdir
  refine ⟨fun hstall => ?_, fun harrive => ?_, fun s hhome hfind => ?_⟩
  · rw [hresults, hstalls.mpr hstall]
  · obtain ⟨q, hq⟩ := Option.ne_none_iff_exists'.mp (mt hstalls.mp harrive)
    rw [hq] at hresults
    have hlocation := (CanSearch.start hd.segments_ne_nil hdir).of_searched? hq |>.location
    refine ⟨q, hq, hlocation, hresults, fun hfits => ?_⟩
    rw [hresults]
    dsimp only
    rw [contributions_of_fits hfits]
  · have hs : s.WellNamed := wellNamed_iff.mpr fun l e hl => h.nameable (hfind l ▸ hl)
    have hkeep : t.KeepsDirectories s := ⟨hhome, fun {l} hl => by rw [hfind, hl]⟩
    refine ofDirectory_congr h hs hd hdir (isDirectory_of_keepsDirectories hkeep hdir) ?_
    exact recordEntries_congr (hkeep.locationOf d) fun names _ _ e => by rw [hfind]

/-- A slash at either end of the path makes no difference. -/
theorem ofDirectory_merges_array :
    let t := FileTree.ofFiles [(["in", "a.json"], "[1]")]
    let d := Path.ofText "./in/"
    t.WellNamed ∧ IsPlainText "./in/" ∧ t.isDirectory d = true ∧ ¬ d.StallsAtHome ∧
      ofDirectory t .current d =
        .ok (merge .current [Entry.elements ⟨["in", "a.json"]⟩ (.file "[1]".toUTF8)]) := by
  intro t d
  have hnamed : t.WellNamed := by decide +kernel
  have hplain : IsPlainText "./in/" := by decide +kernel
  have hdir : t.isDirectory d = true := by decide +kernel
  have harrive : ¬ d.StallsAtHome := by decide +kernel
  obtain ⟨q, hq, -, -, hmerged⟩ :=
    (ofDirectory_merges t hnamed .current "./in/" hplain hdir).2.1 harrive
  have hpath : d.searchPath? = some ⟨["in", ""]⟩ := by decide +kernel
  have hentries : recordEntries t d = [(["a.json"], .file "[1]".toUTF8)] := by decide +kernel
  obtain rfl : q = ⟨["in", ""]⟩ := Option.some.inj (hq.symm.trans hpath)
  refine ⟨hnamed, hplain, hdir, harrive, ?_⟩
  have hfits : ∀ x ∈ recordEntries t d, (within ⟨["in", ""]⟩ x.1).hasFittingLength = true := by
    rw [hentries]
    decide +kernel
  rw [hmerged hfits, hentries]
  rfl

/-- An empty segment in the working directory loses all records, and no error tells of it. -/
theorem ofDirectory_loses_records :
    let t := FileTree.ofFiles [(["a.json"], "[1]")]
    let d := Path.ofText "./"
    IsPlainText "./" ∧ t.isDirectory d = true ∧
      recordEntries t d = [(["a.json"], .file "[1]".toUTF8)] ∧
      ofDirectory t .current d = .ok (merge .current []) := by
  intro t d
  have hnamed : t.WellNamed := by decide +kernel
  have hd : d.IsPlain := by decide +kernel
  have hdir : t.isDirectory d = true := by decide +kernel
  have hnowhere : d.searchPath? = none := by decide +kernel
  have hmerged := ofDirectory_of_isPlain .current hnamed hd hdir
  rw [hnowhere] at hmerged
  exact ⟨by decide +kernel, hdir, by decide +kernel, hmerged⟩

/-! ## Nothing else is read -/

/--
**Only what is below the directory is read**, if there is no wildcard in its path: the answer is
merged from entries found there, and it is the same for every tree with the same entries there.
-/
theorem ofDirectory_confined (t : FileTree) (h : t.WellNamed) (origin : Origin) (text : String)
    (hplain : IsPlainText text) (hdir : t.isDirectory (.ofText text) = true) :
    let d := Path.ofText text
    (∃ (q : Path) (found : List (Location × Entry)),
      (∀ x ∈ found, x.1 ≠ [] ∧ t.find? (t.locationOf d ++ x.1) = some x.2) ∧
      ofDirectory t origin d =
        .ok (merge origin (found.map fun x => x.2.contribution (within q x.1)))) ∧
    ∀ s : FileTree, s.WellNamed → s.workingDirectory = t.workingDirectory →
      s.isDirectory d = true →
      (∀ names, names ≠ [] →
        s.find? (t.locationOf d ++ names) = t.find? (t.locationOf d ++ names)) →
      ofDirectory s origin d = ofDirectory t origin d := by
  intro d
  have hd : d.IsPlain := Path.isPlain_ofText hplain
  refine ⟨?_, fun s hs hhome hsdir hfind => ?_⟩
  · rw [ofDirectory_of_isPlain _ h hd hdir]
    cases d.searchPath? with
    | none => exact ⟨d, [], by simp, rfl⟩
    | some q =>
        refine ⟨q, (recordEntries t d).filter fun x => (within q x.1).IsListed, ?_, rfl⟩
        intro x hx
        exact (mem_recordEntries.mp (List.mem_filter.mp hx).1).1
  · have hlocation : s.locationOf d = t.locationOf d := by
      unfold FileTree.locationOf
      rw [hhome]
    refine ofDirectory_congr h hs hd hdir hsdir ?_
    exact recordEntries_congr hlocation fun names hne _ e => by rw [hfind names hne]

/-- Other files next to the directory make no difference. -/
theorem ofDirectory_confined_beside :
    let t := FileTree.ofFiles [(["in", "a.json"], "[1]")]
    let s := t.insert ["b.json"] (.file "[2]".toUTF8)
    t.WellNamed ∧ s.WellNamed ∧ IsPlainText "in" ∧ t.isDirectory (.ofText "in") = true ∧
      ofDirectory s .current (.ofText "in") = ofDirectory t .current (.ofText "in") := by
  intro t s
  have ht : t.WellNamed := by decide +kernel
  have hs : s.WellNamed := by decide +kernel
  have hplain : IsPlainText "in" := by decide +kernel
  have hdir : t.isDirectory (.ofText "in") = true := by decide +kernel
  have hsdir : s.isDirectory (.ofText "in") = true := by decide +kernel
  refine ⟨ht, hs, hplain, hdir, ?_⟩
  refine (ofDirectory_confined t ht .current "in" hplain hdir).2 s hs rfl hsdir ?_
  intro names _
  have hhere : t.locationOf (.ofText "in") = ["in"] := by decide +kernel
  have hother : ["in"] ++ names ≠ ["b.json"] := by simp
  rw [hhere]
  exact find?_insert_of_ne t _ hother

/-- A path with wildcards reaches other directories, or is no pattern at all. -/
theorem ofDirectory_escapes :
    (let t := FileTree.ofFiles [(["a[", "x.json"], "[1]")]
     t.isDirectory (.ofText "a[") = true ∧
       (ofDirectory t .current (.ofText "a[")).toOption.isNone = true) ∧
    (let t := (FileTree.ofFiles [(["ab", "x.json"], "[1]")]).insert ["a*"] .directory
     t.isDirectory (.ofText "a*") = true ∧ t.below ["a*"] = [] ∧
       (ofDirectory t .current (.ofText "a*")).toOption.map (fun r => r.1.total) = some 1) := by
  refine ⟨by decide +kernel, by decide +kernel, by decide +kernel, ?_⟩
  generalize ht : (FileTree.ofFiles [(["ab", "x.json"], "[1]")]).insert ["a*"] .directory = t
  have hhome : t.locate ⟨["."]⟩ = .ok ([], .directory) := by
    rw [← ht]
    decide +kernel
  have hlisted : t.listDirectory ⟨["."]⟩ = [(⟨["a*"]⟩, "a*"), (⟨["ab"]⟩, "ab")] := by
    have hchildren : (t.children []).map Prod.fst = [["a*"], ["ab"]] := by
      rw [← ht]
      decide +kernel
    unfold listDirectory
    rw [hhome]
    dsimp only
    rw [hchildren, List.mergeSort_of_pairwise (by decide +kernel)]
    rfl
  have hglob : t.glob (patternFor (.ofText "a*")) =
      .ok (t.reach [.wild [.char 'a', .anySequence], .directories, .wild GlobToken.ofRecordFiles]
        ⟨["."]⟩) := by rfl
  have hfound : t.reach [.wild [.char 'a', .anySequence], .directories,
      .wild GlobToken.ofRecordFiles] ⟨["."]⟩ = [⟨["ab", "x.json"]⟩] := by
    rw [reach, if_pos (by rfl), hlisted, ← ht]
    decide +kernel
  have hfiles : recordFiles t (.ofText "a*") = .ok [⟨["ab", "x.json"]⟩] := by
    have hsorted : ([⟨["ab", "x.json"]⟩].filter isRecordFile).mergeSort Path.le =
        [⟨["ab", "x.json"]⟩] := by decide +kernel
    unfold recordFiles
    rw [hglob, hfound]
    exact congrArg Except.ok hsorted
  unfold ofDirectory
  rw [hfiles, ← ht]
  decide +kernel

end Results

end BenchGate
