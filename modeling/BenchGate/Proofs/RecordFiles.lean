import BenchGate.Proofs.Files.Shapes
import BenchGate.Results.Loading

/-!
# The record files of a directory

For a directory without wildcards in its path, the record files are told by the tree alone: they are
the entries below it whose names end in `.json` and are not those of baselines and reports. Two
things keep an entry from being among them. The path of its directory is too long, or the search
does not arrive at the given directory.
-/

namespace BenchGate

open FileTree

variable {t s : FileTree} {p q d : Path}

namespace Results

theorem segments_patternFor (d : Path) :
    (Path.ofText (patternFor d)).segments =
      (Path.ofText d.toText).segments ++ ["**", "*.json"] := by
  have hrest : (Path.ofText "**/*.json").segments = ["**", "*.json"] := by decide
  have hpattern : patternFor d = d.toText ++ "/" ++ "**/*.json" := by
    rw [String.append_assoc]
    rfl
  rw [hpattern, Path.segments_ofText_append, hrest]

theorem dropWhile_append_of_neg {keep : String → Bool} {behind : List String}
    (hbehind : behind.dropWhile keep = behind) (segments : List String) :
    (segments ++ behind).dropWhile keep = segments.dropWhile keep ++ behind := by
  rw [List.dropWhile_append]
  split
  · rename_i hnil
    rw [List.isEmpty_iff.mp hnil, List.nil_append, hbehind]
  · rfl

/-- The pattern for a plain directory goes along its segments and looks for records from there. -/
theorem glob_patternFor (hd : d.IsPlain) (hempty : d.isEmpty = false) (t : FileTree) :
    t.glob (patternFor d) =
      .ok (t.reach (d.searchSegments.map .literal ++ [.directories, .wild GlobToken.ofRecordFiles])
        d.searchStart) := by
  have hsegments : (Path.ofText (patternFor d)).segments = d.segments ++ ["**", "*.json"] := by
    rw [segments_patternFor, ← hd.2]
  have habs : (Path.ofText (patternFor d)).isAbsolute = d.isAbsolute := by
    obtain ⟨first, rest, hfirst⟩ := List.exists_cons_of_ne_nil hd.segments_ne_nil
    have hdirectory : d = ⟨first :: rest⟩ := by rw [← hfirst]
    have hpattern : Path.ofText (patternFor d) = ⟨first :: (rest ++ ["**", "*.json"])⟩ := by
      rw [← List.cons_append, ← hfirst, ← hsegments]
    rw [hpattern, hdirectory, Path.isAbsolute_cons, Path.isAbsolute_cons]
    cases rest with
    | cons second more => rfl
    | nil =>
        have hname : first ≠ "" := by
          rintro rfl
          rw [hdirectory] at hempty
          exact absurd hempty (by decide)
        rw [decide_eq_false hname, Bool.false_and, Bool.false_and]
  have hstart : (Path.ofText (patternFor d)).searchStart = d.searchStart := by
    rw [Path.searchStart, Path.searchStart, habs]
  have hsearch : (Path.ofText (patternFor d)).searchSegments =
      d.searchSegments ++ ["**", "*.json"] := by
    rw [Path.searchSegments, Path.searchSegments, habs, hsegments]
    split
    · exact dropWhile_append_of_neg (by decide) _
    · rfl
  have hplain : ∀ segment ∈ d.searchSegments, IsPlainText segment := by
    intro segment hsegment
    refine hd.isPlainText ?_
    unfold Path.searchSegments at hsegment
    split at hsegment
    · exact (List.dropWhile_suffix _).subset hsegment
    · exact hsegment
  have hrest : ["**", "*.json"].mapM GlobComponent.ofText =
      .ok [.directories, .wild GlobToken.ofRecordFiles] := by rfl
  have htokens : GlobToken.ofText (patternFor d) = .ok _ := GlobToken.ofText_below hd.1
  rw [glob_eq, htokens, hstart, hsearch, List.mapM_append, GlobComponent.mapM_ofText hplain,
    ok_bind, hrest, ok_bind]
  exact congrArg (fun components => Except.ok (t.reach components d.searchStart))
    (GlobComponent.collapse_literals d.searchSegments _)

/-- A name of a file that holds records of the current run. -/
def IsRecordName (name : String) : Prop :=
  ".json".toList <:+ name.toList ∧ isRecordFileName name = true

instance (name : String) : Decidable (IsRecordName name) := inferInstanceAs (Decidable (_ ∧ _))

theorem isRecordFile_within {names : List String} (hnames : Location.Nameable names)
    (hne : names ≠ []) : isRecordFile (within p names) = isRecordFileName (names.getLastD "") := by
  have hlast : names.getLastD "" = names.getLast hne := by
    rw [List.getLastD_eq_getLast?, List.getLast?_eq_some_getLast hne]
    rfl
  have hname := (hnames _ (List.getLast_mem hne)).isName
  have hwithin : within p names = ⟨(p.front ++ names.dropLast) ++ [names.getLast hne]⟩ := by
    rw [Path.within_eq (Path.isAbsolute_of_isName (isName_of_nameable hnames)), List.append_assoc,
      List.dropLast_append_getLast hne]
  unfold isRecordFile
  rw [hlast, hwithin, Path.fileName?_concat _ hname]

/-- The entries below a directory that are named as records of the current run. -/
def recordEntries (t : FileTree) (d : Path) : List (Location × Entry) :=
  (t.below (t.locationOf d)).filter fun x => IsRecordName (x.1.getLastD "")

/-- **The record files of a plain directory** are the entries below it with such a name, in the
order of a walk, apart from those in a directory whose path is too long. If the search does not
arrive at the directory, there are none. -/
theorem recordFiles_of_isPlain (h : t.WellNamed) (hd : d.IsPlain) (hdir : t.isDirectory d = true) :
    recordFiles t d = .ok (match d.searchPath? with
      | none => []
      | some q => ((recordEntries t d).filter fun x => (within q x.1).IsListed).map
          fun x => within q x.1) := by
  have hempty := (usable_of_isDirectory hdir).2.2
  have hsearch := CanSearch.start hd.segments_ne_nil hdir
  unfold recordFiles
  rw [glob_patternFor hd hempty, reach_literals hsearch, ← Path.searchPath?]
  dsimp only
  cases hpath : d.searchPath? with
  | none => simp
  | some q =>
      have hq := hsearch.of_searched? hpath
      have hqusable := usable_of_isDirectory hq.isDirectory
      have hmem : ∀ x ∈ t.below (t.locationOf d), x.1 ≠ [] ∧ Location.Nameable x.1 :=
        fun x hx => ⟨(mem_below.mp hx).1, h.nameable_of_mem_below hx⟩
      dsimp only
      rw [reach_recordFiles h hq.isDirectory, hq.location, List.filter_map, List.filter_filter,
        recordEntries, List.filter_filter, List.mergeSort_of_pairwise]
      · refine congrArg _ (congrArg _ (List.filter_congr fun x hx => ?_))
        rw [Function.comp_apply, isRecordFile_within (hmem x hx).2 (hmem x hx).1, Bool.eq_iff_iff]
        simp only [Bool.and_eq_true, decide_eq_true_eq]
        constructor
        · rintro ⟨hname, hjson, hlisted⟩
          exact ⟨hlisted, hjson, hname⟩
        · rintro ⟨hlisted, hjson, hname⟩
          exact ⟨hname, hjson, hlisted⟩
      · -- the walk is in the order of paths already
        refine List.pairwise_map.mpr (((t.below_sorted _).filter _).imp_of_mem ?_)
        intro x y hx hy hle
        have hx := hmem x (List.mem_filter.mp hx).1
        have hy := hmem y (List.mem_filter.mp hy).1
        rw [Path.le_within hqusable.2.2 (isName_of_nameable hx.2) hx.1
          (isName_of_nameable hy.2) hy.1]
        exact hle

theorem mem_recordEntries {x : Location × Entry} :
    x ∈ recordEntries t d ↔
      (x.1 ≠ [] ∧ t.find? (t.locationOf d ++ x.1) = some x.2) ∧
        IsRecordName (x.1.getLastD "") := by
  rw [recordEntries, List.mem_filter, mem_below, decide_eq_true_eq]

/-- The paths of record files lead on from where the search arrives, in every tree that has the
directory. -/
theorem exists_names_of_mem_recordFiles {paths : List Path} (h : t.WellNamed) (hd : d.IsPlain)
    (hdir : t.isDirectory d = true) (hfiles : recordFiles t d = .ok paths) (hp : p ∈ paths) :
    ∃ q names, p = within q names ∧ names ≠ [] ∧ Location.Nameable names ∧
      ∀ u : FileTree, u.isDirectory d = true →
        u.isDirectory q = true ∧ u.locationOf q = u.locationOf d := by
  rw [recordFiles_of_isPlain h hd hdir, Except.ok.injEq] at hfiles
  cases hpath : d.searchPath? with
  | none =>
      rw [hpath] at hfiles
      rw [← hfiles] at hp
      cases hp
  | some q =>
      rw [hpath] at hfiles
      rw [← hfiles] at hp
      obtain ⟨x, hx, rfl⟩ := List.mem_map.mp hp
      have hmem := (List.mem_filter.mp hx).1
      refine ⟨q, x.1, rfl, (mem_recordEntries.mp hmem).1.1,
        h.nameable_of_mem_below (List.mem_filter.mp hmem).1, fun u hu => ?_⟩
      have hq := (CanSearch.start hd.segments_ne_nil hu).of_searched? hpath
      exact ⟨hq.isDirectory, hq.location⟩

/-- The record files of a plain directory lie below it. -/
theorem location_of_mem_recordFiles {paths : List Path} (h : t.WellNamed) (hd : d.IsPlain)
    (hdir : t.isDirectory d = true) (hfiles : recordFiles t d = .ok paths) (hp : p ∈ paths) :
    ∃ names, names ≠ [] ∧ t.locationOf p = t.locationOf d ++ names := by
  obtain ⟨q, names, rfl, hne, hnames, hleads⟩ := exists_names_of_mem_recordFiles h hd hdir hfiles hp
  obtain ⟨hq, hlocation⟩ := hleads t hdir
  exact ⟨names, hne, by rw [locationOf_within hq hnames hne, hlocation]⟩

/-- What a search finds below a plain directory, it found before if it was there. -/
theorem pathExists_of_mem_recordFiles {paths : List Path} {e : Entry} (hkeep : t.KeepsDirectories s)
    (hs : s.WellNamed) (hd : d.IsPlain) (hdir : t.isDirectory d = true)
    (hfiles : recordFiles s d = .ok paths) (hp : p ∈ paths) (hexists : s.pathExists p = true)
    (hthere : t.find? (t.locationOf p) = some e) : t.pathExists p = true := by
  have hsdir := isDirectory_of_keepsDirectories hkeep hdir
  obtain ⟨q, names, rfl, hne, hnames, hleads⟩ :=
    exists_names_of_mem_recordFiles hs hd hsdir hfiles hp
  obtain ⟨hq, -⟩ := hleads t hdir
  rw [locationOf_within hq hnames hne] at hthere
  exact pathExists_iff.mpr
    ⟨e, look_within hq hnames hne hthere (usable_of_pathExists hexists).2.1⟩

/-! ## Any directory -/

/-- **Whatever the path of the directory is**, its record files are found by one search in every
tree, or the path makes no pattern. -/
theorem recordFiles_cases (d : Path) :
    (∃ cause, ∀ t : FileTree, recordFiles t d = .error cause) ∨
      ∃ components start, components ≠ [] ∧ EndsInRecords components ∧ ∀ t : FileTree,
        recordFiles t d =
          .ok (((t.reach components start).filter isRecordFile).mergeSort Path.le) := by
  -- the pattern ends in `*.json`, and so do its components
  obtain ⟨above, habove⟩ : ∃ above, (Path.ofText (patternFor d)).searchSegments =
      above ++ ["*.json"] := by
    rw [Path.searchSegments, segments_patternFor,
      show ["**", "*.json"] = ["**"] ++ ["*.json"] from rfl, ← List.append_assoc]
    split
    · exact ⟨_, dropWhile_append_of_neg (by decide) _⟩
    · exact ⟨_, rfl⟩
  have hwild : ["*.json"].mapM GlobComponent.ofText = .ok [.wild GlobToken.ofRecordFiles] := by rfl
  cases htokens : GlobToken.ofText (patternFor d) with
  | error cause =>
      refine .inl ⟨.pattern d cause, fun t => ?_⟩
      unfold recordFiles
      rw [glob_eq, htokens]
      rfl
  | ok tokens =>
      cases hfront : above.mapM GlobComponent.ofText with
      | error cause =>
          refine .inl ⟨.pattern d cause, fun t => ?_⟩
          unfold recordFiles
          rw [glob_eq, htokens, habove, List.mapM_append, hfront]
          rfl
      | ok front =>
          obtain ⟨hne, hends⟩ := endsInRecords_collapse front
          refine .inr ⟨_, (Path.ofText (patternFor d)).searchStart, hne, hends, fun t => ?_⟩
          unfold recordFiles
          rw [glob_eq, htokens, habove, List.mapM_append, hfront, hwild]
          rfl

/-- **Record files lie where such names are**, whatever the path of the directory is. -/
theorem isRecordName_of_mem_recordFiles {paths : List Path} (h : t.WellNamed)
    (hfiles : recordFiles t d = .ok paths) (hp : p ∈ paths) :
    IsRecordName ((t.locationOf p).getLastD "") := by
  rcases recordFiles_cases d with ⟨cause, herror⟩ | ⟨components, start, hne, hends, hfound⟩
  · cases hfiles.symm.trans (herror t)
  · obtain rfl := Except.ok.inj (hfiles.symm.trans (hfound t))
    obtain ⟨hreached, hrecord⟩ := List.mem_filter.mp (List.mem_mergeSort.mp hp)
    obtain ⟨name, ⟨hname, more, rfl⟩, hjson⟩ := leadsTo_of_mem_reach h _ _ hne hends hreached
    rw [← List.append_assoc] at hrecord ⊢
    obtain ⟨l, hl⟩ := Path.locationFrom_concat t.workingDirectory (start.front ++ more) hname
    unfold isRecordFile at hrecord
    rw [Path.fileName?_concat _ hname] at hrecord
    rw [locationOf, hl, List.getLastD_concat]
    exact ⟨hjson, hrecord⟩

/-- **In a tree that has grown, the same record files are found** among those that existed. -/
theorem filter_recordFiles_of_growsInto (h : t.GrowsInto s) (ht : t.WellNamed) (hs : s.WellNamed)
    (d : Path) :
    (recordFiles s d).map (List.filter t.pathExists) =
      (recordFiles t d).map (List.filter t.pathExists) := by
  rcases recordFiles_cases d with ⟨cause, herror⟩ | ⟨components, start, -, hends, hfound⟩
  · rw [herror, herror]
  · rw [hfound, hfound, Except.map, Except.map, Path.filter_mergeSort, Path.filter_mergeSort,
      List.filter_comm, h.reach ht hs components start hends, List.filter_comm]

end Results

end BenchGate
