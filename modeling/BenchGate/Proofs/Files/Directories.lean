import BenchGate.Proofs.Files.Steps

/-!
# Directories with those above them

A directory is made with the directories above it, as far as they do not exist. The paths for that
are cut from the end of the given path, so each of them leads to a place on the way of that path: to
one of its **waypoints**. Only at such places something new appears, only where nothing was, and it
is always a directory.
-/

namespace BenchGate

variable {home l k : Location} {p q : Path} {t s : FileTree}

/-! ## Places on a way -/

namespace Path

/-- A place that a path passes, from its start to its end. -/
def Passes (home : Location) (p : Path) (l : Location) : Prop :=
  ∃ above, above <+: p.segments ∧ above.foldl Location.step (p.start home) = l

/-- The places that a path passes before its last segment. -/
def waypoints (home : Location) (p : Path) : List Location :=
  p.segments.dropLast.inits.map fun above => above.foldl Location.step (p.start home)

theorem mem_waypoints :
    l ∈ p.waypoints home ↔
      ∃ above, above <+: p.segments.dropLast ∧ above.foldl Location.step (p.start home) = l := by
  simp only [waypoints, List.mem_map, List.mem_inits]

theorem passes_locationFrom (home : Location) (p : Path) : p.Passes home (locationFrom home p) :=
  ⟨p.segments, List.prefix_refl _, rfl⟩

theorem passes_of_mem_waypoints (h : l ∈ p.waypoints home) : p.Passes home l := by
  obtain ⟨above, hpre, hl⟩ := mem_waypoints.mp h
  exact ⟨above, hpre.trans (List.dropLast_prefix _), hl⟩

theorem prefix_dropLast {α : Type} {a b : List α} (h : a <+: b) : a.dropLast <+: b.dropLast := by
  rcases List.eq_nil_or_concat b with rfl | ⟨b, x, rfl⟩
  · rw [List.prefix_nil.mp h]
  · rw [List.concat_eq_append] at h ⊢
    rw [List.dropLast_concat]
    rcases List.prefix_concat_iff.mp h with rfl | hpre
    · rw [List.dropLast_concat]
    · exact (List.dropLast_prefix a).trans hpre

theorem prefix_trimEnd (segments : List String) : trimEnd segments <+: segments := by
  cases segments with
  | nil => exact List.prefix_refl _
  | cons first rest =>
      rw [trimEnd, List.prefix_cons_inj, ← List.reverse_suffix, List.reverse_reverse]
      exact List.dropWhile_suffix _

theorem isAbsolute_iff :
    p.isAbsolute = true ↔ ∃ second rest, p.segments = "" :: second :: rest := by
  unfold isAbsolute
  split
  · rename_i second rest hp
    exact ⟨fun _ => ⟨second, rest, hp⟩, fun _ => rfl⟩
  · rename_i hother
    constructor
    · intro h
      cases h
    · rintro ⟨second, rest, hp⟩
      exact absurd hp (hother second rest)

theorem isAbsolute_singleton (segment : String) : (Path.mk [segment]).isAbsolute = false := by
  rw [Bool.eq_false_iff]
  intro h
  obtain ⟨second, rest, hp⟩ := isAbsolute_iff.mp h
  cases hp

/-- The front of a path starts where the path does, if it has more than one segment. -/
theorem start_of_prefix {first second : String} {rest : List String}
    (h : first :: second :: rest <+: p.segments) :
    (Path.mk (first :: second :: rest)).start home = p.start home := by
  obtain ⟨more, hp⟩ := h
  have habs : (Path.mk (first :: second :: rest)).isAbsolute = p.isAbsolute := by
    rw [Bool.eq_iff_iff, isAbsolute_iff, isAbsolute_iff, ← hp]
    simp
  unfold start
  rw [habs]

/-- **The way to a parent is a part of the way.** -/
theorem mem_waypoints_of_parent? (h : p.parent? = some q) (hq : q.isEmpty = false)
    (hl : q.Passes home l) : l ∈ p.waypoints home := by
  have hpre : trimEnd (trimEnd p.segments).dropLast <+: p.segments.dropLast :=
    (prefix_trimEnd _).trans (prefix_dropLast (prefix_trimEnd _))
  obtain ⟨above, habove, hl⟩ := hl
  rw [mem_waypoints]
  unfold parent? at h
  split at h
  · cases h
  · cases h
  · split at h
    · -- nothing is left
      cases h
      cases hq
    · -- one segment is left: the root, or a single name
      rename_i first hfirst
      rw [hfirst] at hpre
      cases habs : p.isAbsolute with
      | true =>
          obtain ⟨second, rest, hp⟩ := isAbsolute_iff.mp habs
          have hroot : first = "" := by
            rw [hp, List.dropLast_cons_cons] at hpre
            exact (List.cons_prefix_cons.mp hpre).1
          subst hroot
          rw [habs] at h
          cases h
          -- the root is written with two empty segments
          have hblank : above.all (· = "") = true := by
            rw [List.all_eq_true]
            intro segment hmem
            have := habove.subset hmem
            simpa using this
          refine ⟨[], List.nil_prefix, ?_⟩
          rw [← hl, Location.foldl_step_empty hblank, start, habs]
          rfl
      | false =>
          rw [habs, if_neg Bool.false_ne_true] at h
          cases h
          refine ⟨above, habove.trans hpre, ?_⟩
          rw [← hl, start, start, habs, isAbsolute_singleton]
    · rename_i hnil hone
      cases h
      refine ⟨above, habove.trans hpre, ?_⟩
      -- more than one segment is left
      match hsegments : trimEnd (trimEnd p.segments).dropLast with
      | [] => exact absurd hsegments hnil
      | [first] => exact absurd hsegments (hone first)
      | first :: second :: rest =>
          rw [hsegments] at hl hpre
          rw [← hl, start_of_prefix (hpre.trans (List.dropLast_prefix _))]

theorem length_step_ge {segment : String} (hup : segment ≠ "..") (l : Location) :
    l.length ≤ (l.step segment).length := by
  unfold Location.step
  rw [if_neg hup]
  split
  · exact Nat.le_refl _
  · rw [List.length_append]
    exact Nat.le_add_right _ _

theorem length_foldl_step_ge {segments : List String} (hup : ".." ∉ segments) (l : Location) :
    l.length ≤ (segments.foldl Location.step l).length := by
  induction segments generalizing l with
  | nil => exact Nat.le_refl _
  | cons segment rest ih =>
      have hsegment : segment ≠ ".." := fun heq => hup (heq ▸ List.mem_cons_self)
      exact Nat.le_trans (length_step_ge hsegment l)
        (ih (fun hmem => hup (List.mem_cons_of_mem _ hmem)) _)

/-- A path that never goes up does not pass its own end. -/
theorem locationFrom_not_mem_waypoints (home : Location) (hname : p.EndsInName)
    (hup : ".." ∉ p.segments) : locationFrom home p ∉ p.waypoints home := by
  intro hmem
  obtain ⟨above, ⟨more, hmore⟩, hl⟩ := mem_waypoints.mp hmem
  have hnonempty : p.segments ≠ [] := by
    intro hnil
    rw [EndsInName, hnil] at hname
    exact absurd hname (by decide)
  -- what follows on the way never shortens it, and the last name makes it longer
  have hlast : p.segments = above ++ more ++ [p.segments.getLastD ""] := by
    rw [hmore, List.getLastD_eq_getLast?, List.getLast?_eq_some_getLast hnonempty]
    exact (List.dropLast_append_getLast hnonempty).symm
  have hmoreUp : ".." ∉ more := by
    intro hin
    rw [hlast] at hup
    exact hup (List.mem_append_left _ (List.mem_append_right _ hin))
  have hge := length_foldl_step_ge hmoreUp (above.foldl Location.step (p.start home))
  rw [locationFrom, hlast, List.foldl_append, List.foldl_append, List.foldl_cons,
    List.foldl_nil, Location.step_name hname] at hl
  have hlength := congrArg List.length hl
  rw [List.length_append, List.length_singleton] at hlength
  omega

/-- All paths that are cut from a path lead to places on its way. -/
theorem passes_of_mem_andAbove {fuel : Nat} (h : q ∈ p.andAbove fuel) (hl : q.Passes home l) :
    p.Passes home l := by
  induction fuel generalizing p with
  | zero => cases h
  | succ fuel ih =>
      rw [andAbove] at h
      split at h
      · cases h
      · rcases List.mem_cons.mp h with rfl | habove
        · exact hl
        · split at habove
          · cases habove
          · rename_i parent hparent
            refine passes_of_mem_waypoints (mem_waypoints_of_parent? hparent ?_ (ih habove))
            rw [Bool.eq_false_iff]
            intro hempty
            cases fuel with
            | zero => cases habove
            | succ fuel =>
                rw [andAbove, if_pos hempty] at habove
                cases habove

end Path

/-! ## The directories to make -/

namespace FileTree

theorem mem_of_mem_upToMakeable {paths : List Path} (h : q ∈ t.upToMakeable paths) :
    q ∈ paths := by
  induction paths with
  | nil => cases h
  | cons p above ih =>
      rw [upToMakeable] at h
      split at h
      · rcases List.mem_cons.mp h with rfl | hrest
        · exact List.mem_cons_self
        · exact List.mem_cons_of_mem _ (ih hrest)
      · exact List.mem_cons.mpr (.inl (List.mem_singleton.mp h))

theorem passes_of_mem_directoriesFor (h : q ∈ t.directoriesFor p) :
    p.Passes home (locationFrom home q) :=
  Path.passes_of_mem_andAbove (mem_of_mem_upToMakeable (List.mem_reverse.mp h))
    (q.passes_locationFrom home)

theorem directoriesFor_of_isEmpty (h : p.isEmpty = true) : t.directoriesFor p = [] := by
  unfold directoriesFor
  rw [Path.andAbove, if_pos h]
  rfl

/-- The directory itself is made last. -/
theorem exists_directoriesFor_eq (t : FileTree) (h : p.isEmpty = false) :
    ∃ above, t.directoriesFor p = above ++ [p] := by
  unfold directoriesFor
  rw [Path.andAbove, if_neg (by simp [h]), upToMakeable]
  split
  · rw [List.reverse_cons]
    exact ⟨_, rfl⟩
  · exact ⟨[], rfl⟩

theorem directoriesFor_of_isDirectory (h : p.isEmpty = false) (hdir : t.isDirectory p = true) :
    t.directoriesFor p = [p] := by
  unfold directoriesFor
  rw [Path.andAbove, if_neg (by simp [h]), upToMakeable, makeDirectory_of_isDirectory hdir]
  rfl

end FileTree

/-! ## Making them -/

section Making

open FileTree FileStep

variable {ε : Type} {failure : FileError → ε} {paths : List Path}

/-- The steps that make directories. -/
def ensuring (failure : FileError → ε) (paths : List Path) : List (Guarded ε) :=
  paths.map fun path => ⟨.ensureDirectory path, failure⟩

/-- `s` has a directory where `t` has nothing. -/
def FileTree.GainsDirectory (t s : FileTree) (k : Location) : Prop :=
  t.find? k = none ∧ s.find? k = some .directory

/-- **Making directories leaves everything that exists as it is.** -/
theorem find?_ensuring (h : s ∈ statesOf t (ensuring failure paths)) (k : Location) :
    s.find? k = t.find? k ∨ k ∈ paths.map t.locationOf ∧ t.GainsDirectory s k := by
  have hboth : t.KeepsDirectories s ∧
      (s.find? k = t.find? k ∨ k ∈ paths.map t.locationOf ∧ t.GainsDirectory s k) := by
    refine statesOf_induction (P := fun s => t.KeepsDirectories s ∧
      (s.find? k = t.find? k ∨ k ∈ paths.map t.locationOf ∧ t.GainsDirectory s k))
      ⟨.refl t, .inl rfl⟩ (fun g hg u v hu hshow => ?_) s h
    refine ⟨hu.1.trans hshow.keepsDirectories, ?_⟩
    obtain ⟨path, hpath, rfl⟩ := List.mem_map.mp hg
    have hrun : (ensureDirectory path).run u = .ok v := hshow.resolve_right (by simp [midway])
    rcases find?_run_ensureDirectory hrun k with hsame | ⟨hk, hfree, hmade⟩
    · rw [GainsDirectory, hsame]
      exact hu.2
    · rcases hu.2 with hbefore | ⟨-, -, hdir⟩
      · rw [hu.1.locationOf] at hk
        exact .inr ⟨hk ▸ List.mem_map_of_mem hpath, hbefore ▸ hfree, hmade⟩
      · rw [hdir] at hfree
        cases hfree
  exact hboth.2

/-- When all went well, the directory exists. -/
theorem isDirectory_of_runSteps_ensuring (hp : p.isEmpty = false)
    (h : runSteps t (ensuring failure (t.directoriesFor p)) = (s, .ok ())) :
    s.isDirectory p = true := by
  obtain ⟨above, habove⟩ := t.exists_directoriesFor_eq hp
  rw [habove, ensuring, List.map_append, runSteps_append] at h
  split at h
  · rename_i u _
    cases hrun : (ensureDirectory p).run u with
    | error cause =>
        rw [List.map_singleton, runSteps_cons_error hrun] at h
        cases h
    | ok v =>
        rw [List.map_singleton, runSteps_cons_ok hrun] at h
        cases h
        exact isDirectory_of_run_ensureDirectory hrun
  · cases h

/-- Where the directory exists, nothing happens. -/
theorem runSteps_ensuring_of_isDirectory
    (h : p.isEmpty = true ∨ t.isDirectory p = true) :
    runSteps t (ensuring failure (t.directoriesFor p)) = (t, .ok ()) := by
  cases hp : p.isEmpty with
  | true =>
      rw [directoriesFor_of_isEmpty hp]
      rfl
  | false =>
      have hdir : t.isDirectory p = true := h.resolve_left (by simp [hp])
      rw [directoriesFor_of_isDirectory hp hdir]
      exact runSteps_cons_ok (run_ensureDirectory_of_isDirectory hdir)

end Making

end BenchGate
