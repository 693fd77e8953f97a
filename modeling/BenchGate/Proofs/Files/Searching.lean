import BenchGate.Proofs.Files.Patterns

/-!
# Searching below a directory

The search for record files goes along the segments of the given path first. It stays in directories
on the way of that path, and every path on the search is at most as long as the given one, so it
arrives at the directory. There is one exception: an empty segment in the working directory itself,
as in `./`, makes an empty path, and that leads nowhere.

From the directory, the search finds what `*.json` fits at any depth, in the order of a walk.
-/

namespace BenchGate

open FileTree

variable {t : FileTree} {p q d : Path} {l : Location} {segment : String}
  {segments : List String} {x : Target}

/-! ## The way to the directory -/

namespace Path

/-- The path of a search that goes on along segments, if they do not make it empty. -/
def searched? (p : Path) : List String → Option Path
  | [] => some p
  | segment :: rest =>
    if segment = "" ∧ p.components = [.here] then none else (within p [segment]).searched? rest

/-- Where the search for a path starts. -/
def searchStart (d : Path) : Path := if d.isAbsolute then ⟨["", ""]⟩ else ⟨["."]⟩

/-- The segments along which the search for a path goes. -/
def searchSegments (d : Path) : List String :=
  if d.isAbsolute then d.segments.dropWhile (· = "") else d.segments

/-- The path under which a search arrives at a directory. -/
def searchPath? (d : Path) : Option Path := d.searchStart.searched? d.searchSegments

/-- The path has an empty segment behind nothing but `.`. -/
def StallsAtHome (d : Path) : Prop :=
  d.segments.head? = some "." ∧ (d.segments.dropWhile (· = ".")).head? = some ""

instance (d : Path) : Decidable d.StallsAtHome := inferInstanceAs (Decidable (_ ∧ _))

/-- Away from the working directory, one segment does not lead back to it. -/
theorem components_within_ne_here (hp : p.segments ≠ []) (hempty : p.isEmpty = false)
    (hhere : p.components ≠ [.here]) (segment : String) :
    (within p [segment]).components ≠ [.here] := by
  rw [within_eq (isAbsolute_singleton segment)]
  exact components_front_append_ne_here (front_ne_nil hp hempty hhere) [segment]

theorem searched?_isSome (hp : p.segments ≠ []) (hempty : p.isEmpty = false)
    (hhere : p.components ≠ [.here]) (segments : List String) :
    (p.searched? segments).isSome := by
  induction segments generalizing p with
  | nil => rfl
  | cons segment rest ih =>
      rw [searched?, if_neg (fun h => hhere h.2)]
      have hnext := components_within_ne_here hp hempty hhere segment
      rw [within_eq (isAbsolute_singleton segment)] at hnext ⊢
      refine ih (by simp) ?_ hnext
      have hfront := front_ne_nil hp hempty hhere
      rw [isEmpty, decide_eq_false_iff_not]
      dsimp only
      cases hsegments : p.front with
      | nil => exact absurd hsegments hfront
      | cons first more => simp

theorem searched?_home (segments : List String) :
    (Path.mk ["."]).searched? segments = none ↔
      (segments.dropWhile (· = ".")).head? = some "" := by
  induction segments with
  | nil => simp [searched?]
  | cons segment rest ih =>
      by_cases hdot : segment = "."
      · subst hdot
        rw [searched?, if_neg (by decide)]
        exact ih
      · rw [List.dropWhile_cons_of_neg (by simpa using hdot), List.head?_cons, Option.some.injEq]
        by_cases hblank : segment = ""
        · subst hblank
          rw [searched?, if_pos (by decide)]
          simp
        · have hwithin : within ⟨["."]⟩ [segment] = ⟨[segment]⟩ := rfl
          have haway : (Path.mk [segment]).components ≠ [.here] := by
            intro hback
            obtain ⟨more, hmore, -⟩ := segments_of_here hback
            exact hdot (List.cons.inj hmore).1
          have hsome := searched?_isSome (p := ⟨[segment]⟩) (by simp)
            (by simpa [isEmpty] using hblank) haway rest
          rw [searched?, if_neg (fun h => hblank h.1), hwithin]
          constructor
          · intro hnone
            rw [hnone] at hsome
            cases hsome
          · intro h
            exact absurd h hblank

/-- **The search arrives**, unless the path has an empty segment in the working directory. -/
theorem searchPath?_eq_none_iff (hd : d.segments ≠ []) (hempty : d.isEmpty = false) :
    d.searchPath? = none ↔ d.StallsAtHome := by
  unfold searchPath? searchStart searchSegments StallsAtHome
  obtain ⟨first, rest, hsegments⟩ := List.exists_cons_of_ne_nil hd
  cases habs : d.isAbsolute with
  | true =>
      have hsome := searched?_isSome (p := ⟨["", ""]⟩) (by simp) (by decide) (by decide)
        (d.segments.dropWhile (· = ""))
      obtain ⟨second, more, hroot⟩ := isAbsolute_iff.mp habs
      rw [if_pos rfl, if_pos rfl, hroot]
      rw [hroot] at hsome
      constructor
      · intro hnone
        rw [hnone] at hsome
        cases hsome
      · rintro ⟨hdot, -⟩
        simp at hdot
  | false =>
      rw [if_neg Bool.false_ne_true, if_neg Bool.false_ne_true, searched?_home]
      refine ⟨fun h => ⟨?_, h⟩, fun h => h.2⟩
      -- without a dot in front, the empty segment would be the whole path, or begin an absolute one
      rw [hsegments] at h ⊢
      by_cases hdot : first = "."
      · rw [hdot]
        rfl
      · rw [List.dropWhile_cons_of_neg (by simpa using hdot), List.head?_cons,
          Option.some.injEq] at h
        obtain ⟨segments⟩ := d
        dsimp only at hsegments
        rw [hsegments, h] at habs hempty
        cases rest with
        | nil => exact absurd hempty (by decide)
        | cons second more => cases habs

end Path

/-! ## Going along literal segments -/

namespace FileTree

/-- A way into a directory leads into one with its first segment, and goes on from there. -/
theorem Follows.uncons (h : t.Follows l (segment :: segments) x) (hx : t.Entered x) :
    ∃ y z, t.Follows l [segment] y ∧ t.Entered y ∧
      t.Follows y.location segments z ∧ t.Entered z ∧ z.location = x.location := by
  cases h with
  | stay hstay hrest => exact ⟨_, x, .stay hstay (.done l), trivial, hrest, hx, rfl⟩
  | up hrest => exact ⟨_, x, .up (.done _), trivial, hrest, hx, rfl⟩
  | last _ hname hall =>
      have hblank : ∀ other ∈ segments, Path.stays other = true := by
        intro other hother
        have hother : other = "" := by simpa using List.all_eq_true.mp hall other hother
        rw [hother]
        decide
      have hrest := (Follows.done (t := t) (l ++ [segment])).of_stays hblank
      rw [List.append_nil] at hrest
      exact ⟨_, _, .last l hname rfl, hx, hrest, trivial, rfl⟩
  | into hname hall hdir hrest =>
      exact ⟨_, x, .last l hname rfl, lookUp_eq_ok_iff.mp hdir, hrest, hx, rfl⟩

theorem Follows.dropWhile_blank (h : t.Follows l segments x) :
    t.Follows l (segments.dropWhile (· = "")) x := by
  induction segments generalizing x with
  | nil => exact h
  | cons segment rest ih =>
      by_cases hblank : segment = ""
      · subst hblank
        rw [List.dropWhile_cons_of_pos (by simp)]
        have hskip : t.follow l ("" :: rest) = t.follow l rest := if_pos (by decide)
        exact ih (follows_of_follow (hskip.symm.trans h.follow))
      · rw [List.dropWhile_cons_of_neg (by simpa using hblank)]
        exact h

/-- What a search along segments relies on: they lead from its path into a directory, and there is
room for all of them. -/
structure CanSearch (t : FileTree) (p : Path) (segments : List String) (l : Location) : Prop where
  isDirectory : t.isDirectory p = true
  nonempty : p.segments ≠ []
  leads : ∃ x, t.Follows (t.locationOf p) segments x ∧ t.Entered x ∧ x.location = l
  nulFree : segments.any (fun s => s.toList.contains '\x00') = false
  fits : Path.span p.front + Path.span segments ≤ longestPath + 1

/-- One segment further, the search goes on. -/
theorem CanSearch.next (h : t.CanSearch p (segment :: segments) l)
    (hstep : ¬ (segment = "" ∧ p.components = [.here])) :
    t.CanSearch (within p [segment]) segments l := by
  obtain ⟨x, hfollows, hentered, hl⟩ := h.leads
  obtain ⟨y, z, hy, hyentered, hz, hzentered, hzl⟩ := hfollows.uncons hentered
  have habs := Path.isAbsolute_singleton segment
  have husable := usable_of_isDirectory h.isDirectory
  have hnul := h.nulFree
  rw [List.any_cons, Bool.or_eq_false_iff] at hnul
  have hfits := h.fits
  rw [Path.span_cons] at hfits
  have hnext : (within p [segment]).Usable := by
    rw [Path.within_eq habs]
    refine ⟨?_, ?_, ?_⟩
    · rw [List.any_append, Bool.or_eq_false_iff]
      refine ⟨?_, by simpa using hnul.1⟩
      exact List.any_eq_false.mpr fun other hother =>
        List.any_eq_false.mp husable.1 other (Path.mem_segments_of_mem_front hother)
    · rw [Path.hasFittingLength_iff (by simp), Path.span_append, Path.span_cons, Path.span_nil]
      omega
    · rw [Path.isEmpty, decide_eq_false_iff_not]
      dsimp only
      intro heq
      cases hfront : p.front with
      | nil =>
          rw [hfront, List.nil_append, List.cons.injEq] at heq
          by_cases hhere : p.components = [.here]
          · exact hstep ⟨heq.1, hhere⟩
          · exact Path.front_ne_nil h.nonempty husable.2.2 hhere hfront
      | cons first more =>
          rw [hfront] at heq
          simp at heq
  have hlocation : t.locationOf (within p [segment]) = y.location := by
    rw [locationOf, Path.locationFrom_within husable.2.2 habs (by simp), hy.location]
    rfl
  exact {
    isDirectory := isDirectory_within h.isDirectory hnext hy hyentered
    nonempty := by
      rw [Path.within_eq habs]
      simp
    leads := by
      rw [hlocation]
      exact ⟨z, hz, hzentered, hzl.trans hl⟩
    nulFree := hnul.2
    fits := by
      have hfront := Path.span_front_le (within p [segment])
      rw [Path.within_eq habs] at hfront ⊢
      dsimp only at hfront
      rw [Path.span_append, Path.span_cons, Path.span_nil] at hfront
      omega }

theorem CanSearch.location (h : t.CanSearch p [] l) : t.locationOf p = l := by
  obtain ⟨x, hfollows, -, hl⟩ := h.leads
  rw [← hl, hfollows.location]
  rfl

theorem CanSearch.of_searched? (h : t.CanSearch p segments l) (hq : p.searched? segments = some q) :
    t.CanSearch q [] l := by
  induction segments generalizing p with
  | nil =>
      cases hq
      exact h
  | cons segment rest ih =>
      rw [Path.searched?] at hq
      split at hq
      · cases hq
      · rename_i hstep
        exact ih (h.next hstep) hq

theorem pathExists_of_isDirectory (h : t.isDirectory p = true) : t.pathExists p = true := by
  unfold isDirectory at h
  unfold pathExists
  split at h
  · rename_i hlook
    rw [hlook]
  · cases h

/-- **A search goes along literal segments to the directory**, or finds nothing. -/
theorem reach_literals (h : t.CanSearch p segments l) (rest : List GlobComponent) :
    t.reach (segments.map .literal ++ rest) p =
      match p.searched? segments with
      | some q => t.reach rest q
      | none => [] := by
  induction segments generalizing p with
  | nil => rfl
  | cons segment more ih =>
      rw [List.map_cons, List.cons_append, reach, Path.searched?]
      by_cases hstep : segment = "" ∧ p.components = [.here]
      · -- the path becomes empty
        have hnowhere : t.pathExists (within p [""]) = false := by
          unfold within
          rw [if_pos hstep.2]
          rfl
        rw [if_pos hstep, hstep.1, if_neg (by decide), hnowhere]
        rfl
      · have hnext := h.next hstep
        rw [if_neg hstep, if_pos h.isDirectory,
          if_pos (pathExists_of_isDirectory hnext.isDirectory), ite_self]
        exact ih hnext

/-! ## From the start of a search -/

theorem glob_eq (t : FileTree) (pattern : String) :
    t.glob pattern = (do
      discard (GlobToken.ofText pattern)
      let components ← (Path.ofText pattern).searchSegments.mapM GlobComponent.ofText
      return t.reach (GlobComponent.collapse components) (Path.ofText pattern).searchStart) := rfl

theorem CanSearch.start (hd : d.segments ≠ []) (h : t.isDirectory d = true) :
    t.CanSearch d.searchStart d.searchSegments (t.locationOf d) := by
  obtain ⟨x, hx, hentered⟩ := isDirectory_iff.mp h
  obtain ⟨husable, hfollows⟩ := target_eq_ok_iff.mp hx
  have hl := location_of_target hx
  have hspan := (Path.hasFittingLength_iff hd).mp husable.2.1
  unfold Path.searchStart Path.searchSegments
  cases habs : d.isAbsolute with
  | true =>
      obtain ⟨second, more, hroot⟩ := Path.isAbsolute_iff.mp habs
      rw [Path.start, habs] at hfollows
      have hmem : ∀ segment ∈ d.segments.dropWhile (· = ""), segment ∈ d.segments :=
        fun segment hsegment => (List.dropWhile_suffix _).subset hsegment
      exact {
        isDirectory := rfl
        nonempty := by simp
        leads := ⟨x, hfollows.dropWhile_blank, hentered, hl⟩
        nulFree := List.any_eq_false.mpr fun segment hsegment =>
          List.any_eq_false.mp husable.1 segment (hmem segment hsegment)
        fits := by
          have hle := Path.span_dropWhile_le (second :: more)
          rw [hroot, Path.span_cons] at hspan
          rw [if_pos rfl, if_pos rfl, hroot, List.dropWhile_cons_of_pos (by simp)]
          have hfront : Path.span (Path.mk ["", ""]).front = 1 := by decide
          have hblank : "".utf8ByteSize = 0 := rfl
          omega }
  | false =>
      rw [Path.start, habs] at hfollows
      exact {
        isDirectory := rfl
        nonempty := by simp
        leads := ⟨x, hfollows, hentered, hl⟩
        nulFree := husable.1
        fits := by
          have hfront : Path.span (Path.mk ["."]).front = 0 := by decide
          rw [if_neg Bool.false_ne_true, if_neg Bool.false_ne_true, hfront]
          omega }

/-- From the directory, a search finds what is named like a record file. -/
theorem reach_recordFiles (h : t.WellNamed) (hq : t.isDirectory q = true) :
    t.reach [.directories, .wild GlobToken.ofRecordFiles] q =
      ((t.below (t.locationOf q)).filter fun x =>
        ".json".toList <:+ (x.1.getLastD "").toList ∧ (within q x.1).IsListed).map
          fun x => within q x.1 := by
  have hstop : ∀ entries : List (Path × String),
      (entries.flatMap fun entry => t.reach [] entry.1) = entries.map Prod.fst := by
    intro entries
    rw [← List.flatMap_singleton' (entries.map Prod.fst), List.flatMap_map]
    rfl
  rw [reach, hstop, listBelow_eq hq h, List.filter_map, List.map_map, List.filter_filter]
  refine congrArg _ (List.filter_congr fun x _ => ?_)
  rw [Bool.eq_iff_iff, decide_eq_true_eq, Bool.and_eq_true, decide_eq_true_eq, Function.comp_apply]
  exact and_congr_left' (GlobToken.fits_ofRecordFiles _)

end FileTree

end BenchGate
