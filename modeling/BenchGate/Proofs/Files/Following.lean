import BenchGate.Files.Access
import BenchGate.Proofs.Except
import BenchGate.Proofs.Files.Closed

/-!
# Where paths lead

There are no links in a tree, so a path leads to the one location that it names, or nowhere. What a
tree decides is only whether the way there is open, that is, whether every name before the last is a
directory. Three things follow from that.

* A target lies at the named location, and the directory in which it would lie exists.
* A way that is open stays open as long as no directory goes away.
* Reading a file says two things: the way to its location is open, and the bytes are there.
-/

namespace BenchGate

/-- A segment that is a name, not empty, `.` or `..`. -/
def Path.IsName (segment : String) : Prop := Path.stays segment = false ∧ segment ≠ ".."

/-- A path that ends in a name: not in a slash, `.` or `..`. -/
def Path.EndsInName (p : Path) : Prop := Path.IsName (p.segments.getLastD "")

instance (segment : String) : Decidable (Path.IsName segment) :=
  inferInstanceAs (Decidable (_ ∧ _))

instance (p : Path) : Decidable p.EndsInName := inferInstanceAs (Decidable (Path.IsName _))

/-- A path that is not refused before anything is looked up. -/
def Path.Usable (p : Path) : Prop :=
  p.segments.any (fun s => s.toList.contains '\x00') = false ∧ p.hasFittingLength = true ∧
    p.isEmpty = false

/-- The last name of a location can be looked up. -/
def Location.NameFits (l : Location) : Prop := (l.getLastD "").utf8ByteSize ≤ longestName

theorem Location.step_name {segment : String} (h : Path.IsName segment) (l : Location) :
    l.step segment = l ++ [segment] := by
  unfold step
  rw [h.1, if_neg Bool.false_ne_true, if_neg h.2]

theorem Location.foldl_step_empty {rest : List String} (h : rest.all (· = "") = true)
    (l : Location) : rest.foldl Location.step l = l := by
  induction rest with
  | nil => rfl
  | cons segment rest ih =>
      rw [List.all_cons, Bool.and_eq_true, decide_eq_true_eq] at h
      obtain ⟨rfl, hrest⟩ := h
      exact ih hrest

/-- The location at which a path ends. -/
def Target.location : Target → Location
  | .directory l => l
  | .entry l _ => l

/-- A target shows an entry whose name can be looked up, and behind a slash only a directory. -/
def Target.Admits : Target → Entry → Prop
  | .directory _, _ => True
  | .entry l slash, e => l.NameFits ∧ (slash = true → e = .directory)

namespace FileTree

variable {t s : FileTree} {p : Path} {l k : Location} {segments : List String} {x : Target}

/-! ## Following segments -/

/-- `t.Follows l segments x`: from the directory `l`, the segments lead to the target `x`. -/
inductive Follows (t : FileTree) : Location → List String → Target → Prop where
  | done (l : Location) : Follows t l [] (.directory l)
  | stay {l : Location} {segment : String} {rest : List String} {x : Target} :
      Path.stays segment = true → Follows t l rest x → Follows t l (segment :: rest) x
  | up {l : Location} {rest : List String} {x : Target} :
      Follows t l.dropLast rest x → Follows t l (".." :: rest) x
  | last (l : Location) {segment : String} {rest : List String} :
      Path.IsName segment → rest.all (· = "") = true →
      Follows t l (segment :: rest) (.entry (l ++ [segment]) (!rest.isEmpty))
  | into {l : Location} {segment : String} {rest : List String} {x : Target} :
      Path.IsName segment → rest.all (· = "") = false →
      t.lookUp (l ++ [segment]) = .ok (some .directory) →
      Follows t (l ++ [segment]) rest x → Follows t l (segment :: rest) x

theorem follows_of_follow (h : t.follow l segments = .ok x) : t.Follows l segments x := by
  induction segments generalizing l with
  | nil =>
      cases h
      exact .done l
  | cons segment rest ih =>
      rw [follow] at h
      split at h
      · rename_i hstay
        exact .stay hstay (ih h)
      · rename_i hmove
        split at h
        · rename_i hup
          subst hup
          exact .up (ih h)
        · rename_i hup
          have hname : Path.IsName segment := ⟨by simpa using hmove, hup⟩
          split at h
          · rename_i hall
            cases h
            exact .last l hname hall
          · rename_i hall
            split at h
            · rename_i hdir
              exact .into hname (by simpa using hall) hdir (ih h)
            · cases h
            · cases h
            · cases h

theorem Follows.follow (h : t.Follows l segments x) : t.follow l segments = .ok x := by
  induction h with
  | done l => rfl
  | stay hstay _ ih => rw [FileTree.follow, if_pos hstay, ih]
  | up _ ih => rw [FileTree.follow, if_neg (by decide), if_pos rfl, ih]
  | last l hname hall =>
      rw [FileTree.follow, hname.1, if_neg Bool.false_ne_true, if_neg hname.2, if_pos hall]
  | into hname hall hdir _ ih =>
      rw [FileTree.follow, hname.1, if_neg Bool.false_ne_true, if_neg hname.2, hall,
        if_neg Bool.false_ne_true, hdir]
      exact ih

/-- **Segments lead nowhere but to the location that they name.** -/
theorem Follows.location (h : t.Follows l segments x) :
    x.location = segments.foldl Location.step l := by
  induction h with
  | done l => rfl
  | @stay l segment rest x hstay _ ih =>
      have hstep : l.step segment = l := if_pos hstay
      rw [List.foldl_cons, hstep, ih]
  | up _ ih => rw [ih]; rfl
  | last l hname hall =>
      rw [List.foldl_cons, Location.step_name hname, Location.foldl_step_empty hall]
      rfl
  | into hname _ _ _ ih => rw [List.foldl_cons, Location.step_name hname, ih]

theorem lookUp_eq_ok_iff {found : Option Entry} :
    t.lookUp l = .ok found ↔ l.NameFits ∧ t.find? l = found := by
  unfold lookUp Location.NameFits
  split
  · rename_i hlong
    constructor
    · intro h
      cases h
    · intro h
      omega
  · rename_i hfits
    rw [Except.ok.injEq, and_iff_right (Nat.not_lt.mp hfits)]

/-- What a target promises: a directory that exists, or a name in one. -/
def Holds (t : FileTree) : Target → Prop
  | .directory l => t.find? l = some .directory
  | .entry l _ => l ≠ [] ∧ t.find? l.dropLast = some .directory

theorem Follows.holds (h : t.Follows l segments x) (hl : t.find? l = some .directory) :
    t.Holds x := by
  induction h with
  | done l => exact hl
  | stay _ _ ih => exact ih hl
  | up _ ih => exact ih (find?_dropLast hl)
  | last l _ _ => exact ⟨by simp, by rwa [List.dropLast_concat]⟩
  | into _ _ hdir _ ih => exact ih (lookUp_eq_ok_iff.mp hdir).2

/-- Without a slash behind it, a target's name is the last segment. -/
theorem Follows.isName_getLastD (h : t.Follows l segments (.entry k false)) :
    Path.IsName (segments.getLastD "") := by
  generalize hx : Target.entry k false = x at h
  induction h with
  | done l => cases hx
  | @stay l segment rest x hstay hrest ih =>
      cases hrest with
      | done => cases hx
      | _ => exact ih hx
  | @up l rest x hrest ih =>
      cases hrest with
      | done => cases hx
      | _ => exact ih hx
  | @last l segment rest hname hall =>
      cases rest with
      | nil => exact hname
      | cons => cases hx
  | @into l segment rest x _ hall _ _ ih =>
      cases rest with
      | nil => cases hall
      | cons => exact ih hx

/-! ## Trees that keep their directories -/

/-- Every directory of `t` is one in `s`, and relative paths start in the same one. -/
structure KeepsDirectories (t s : FileTree) : Prop where
  home : s.workingDirectory = t.workingDirectory
  find? : ∀ {l : Location}, t.find? l = some .directory → s.find? l = some .directory

theorem KeepsDirectories.refl (t : FileTree) : t.KeepsDirectories t := ⟨rfl, id⟩

theorem KeepsDirectories.trans {u : FileTree} (h : t.KeepsDirectories s)
    (h' : s.KeepsDirectories u) : t.KeepsDirectories u :=
  ⟨h'.home.trans h.home, fun hl => h'.find? (h.find? hl)⟩

theorem KeepsDirectories.locationOf (h : t.KeepsDirectories s) (p : Path) :
    s.locationOf p = t.locationOf p := by
  unfold FileTree.locationOf
  rw [h.home]

/-- A way that is open stays open. -/
theorem Follows.of_keepsDirectories (h : t.KeepsDirectories s) (hf : t.Follows l segments x) :
    s.Follows l segments x := by
  induction hf with
  | done l => exact .done l
  | stay hstay _ ih => exact .stay hstay ih
  | up _ ih => exact .up ih
  | last l hname hall => exact .last l hname hall
  | into hname hall hdir _ ih =>
      obtain ⟨hfits, hfound⟩ := lookUp_eq_ok_iff.mp hdir
      exact .into hname hall (lookUp_eq_ok_iff.mpr ⟨hfits, h.find? hfound⟩) ih

/-! ## Targets -/

theorem target_eq_ok_iff :
    t.target p = .ok x ↔ p.Usable ∧ t.Follows (p.start t.workingDirectory) p.segments x := by
  unfold target Path.Usable
  split
  · rename_i hnul
    rw [hnul]
    constructor
    · intro h
      cases h
    · rintro ⟨⟨hfree, -⟩, -⟩
      cases hfree
  · rename_i hnul
    have hfree := Bool.eq_false_iff.mpr hnul
    split
    · rename_i hlong
      have hunfit : p.hasFittingLength = false := by simpa using hlong
      simp [hunfit]
    · rename_i hfits
      split
      · rename_i hempty
        simp [hempty]
      · rename_i hempty
        have hfits' : p.hasFittingLength = true := by simpa using hfits
        rw [and_iff_right ⟨hfree, hfits', Bool.eq_false_iff.mpr hempty⟩]
        exact ⟨follows_of_follow, Follows.follow⟩

theorem location_of_target (h : t.target p = .ok x) : x.location = t.locationOf p :=
  (target_eq_ok_iff.mp h).2.location

theorem find?_start (t : FileTree) (p : Path) :
    t.find? (p.start t.workingDirectory) = some .directory := by
  unfold Path.start
  split
  · exact t.find?_nil
  · exact t.find?_workingDirectory

theorem holds_of_target (h : t.target p = .ok x) : t.Holds x :=
  (target_eq_ok_iff.mp h).2.holds (t.find?_start p)

theorem target_of_keepsDirectories (h : t.KeepsDirectories s) (ht : t.target p = .ok x) :
    s.target p = .ok x := by
  obtain ⟨husable, hfollows⟩ := target_eq_ok_iff.mp ht
  refine target_eq_ok_iff.mpr ⟨husable, ?_⟩
  rw [h.home]
  exact hfollows.of_keepsDirectories h

/-! ## The places where files can be -/

/-- The way to the last name of a path is open, and the name can be looked up. -/
structure Reaches (t : FileTree) (p : Path) : Prop where
  target : t.target p = .ok (.entry (t.locationOf p) false)
  nameFits : (t.locationOf p).NameFits

theorem reaches_of_target {slash : Bool} (ht : t.target p = .ok (.entry l slash))
    (hslash : slash = false) (hfits : l.NameFits) : t.Reaches p ∧ t.locationOf p = l := by
  have hl : l = t.locationOf p := location_of_target ht
  subst hl hslash
  exact ⟨⟨ht, hfits⟩, rfl⟩

theorem Reaches.of_keepsDirectories (hr : t.Reaches p) (h : t.KeepsDirectories s) :
    s.Reaches p where
  target := by
    rw [h.locationOf]
    exact target_of_keepsDirectories h hr.target
  nameFits := by
    rw [h.locationOf]
    exact hr.nameFits

theorem Reaches.ne_nil (hr : t.Reaches p) : t.locationOf p ≠ [] := (holds_of_target hr.target).1

theorem Reaches.above (hr : t.Reaches p) :
    t.find? (t.locationOf p).dropLast = some .directory := (holds_of_target hr.target).2

theorem Reaches.endsInName (hr : t.Reaches p) : p.EndsInName :=
  (target_eq_ok_iff.mp hr.target).2.isName_getLastD

theorem Reaches.lookUp (hr : t.Reaches p) :
    t.lookUp (t.locationOf p) = .ok (t.find? (t.locationOf p)) :=
  lookUp_eq_ok_iff.mpr ⟨hr.nameFits, rfl⟩

/-! ## Reading -/

theorem locate_eq_ok {e : Entry} (h : t.locate p = .ok (l, e)) :
    t.target p = .ok (.directory l) ∧ e = .directory ∨
      ∃ slash, t.target p = .ok (.entry l slash) ∧ l.NameFits ∧ t.find? l = some e ∧
        (e ≠ .directory → slash = false) := by
  unfold locate at h
  obtain ⟨x, ht, h⟩ := exists_ok_of_bind h
  cases x with
  | directory l => 
      cases h
      exact .inl ⟨ht, rfl⟩
  | entry l slash =>
      obtain ⟨found, hf, h⟩ := exists_ok_of_bind h
      obtain ⟨hfits, hfound⟩ := lookUp_eq_ok_iff.mp hf
      split at h
      · cases h
      · cases h
        exact .inr ⟨slash, ht, hfits, hfound, fun hne => absurd rfl hne⟩
      · cases h
      · cases h
        exact .inr ⟨false, ht, hfits, hfound, fun _ => rfl⟩

/-- What exists where a path ends is what its location has. -/
theorem look_eq_ok_iff {e : Entry} :
    t.look p = .ok e ↔ ∃ x, t.target p = .ok x ∧ t.find? x.location = some e ∧ x.Admits e := by
  constructor
  · intro h
    obtain ⟨⟨l, found⟩, hlocate, he⟩ := exists_ok_of_bind h
    cases he
    rcases locate_eq_ok hlocate with ⟨ht, rfl⟩ | ⟨slash, ht, hfits, hfound, hslash⟩
    · exact ⟨_, ht, holds_of_target ht, trivial⟩
    · refine ⟨_, ht, hfound, hfits, fun htrue => ?_⟩
      by_contra hfile
      exact absurd (htrue.symm.trans (hslash hfile)) (by decide)
  · rintro ⟨x, ht, hfind, hadmits⟩
    unfold look locate
    rw [ht, ok_bind]
    cases x with
    | directory l =>
        have hdirectory : t.find? l = some .directory := holds_of_target ht
        rw [Target.location, hdirectory, Option.some.injEq] at hfind
        rw [← hfind]
        rfl
    | entry l slash =>
        dsimp only
        rw [lookUp_eq_ok_iff.mpr ⟨hadmits.1, hfind⟩, ok_bind]
        cases e with
        | directory => rfl
        | file content =>
            cases slash with
            | false => rfl
            | true => cases hadmits.2 rfl

theorem pathExists_iff : t.pathExists p = true ↔ ∃ e, t.look p = .ok e := by
  unfold pathExists
  cases t.look p <;> simp

theorem readFile_eq_ok_iff {content : ByteArray} :
    t.readFile p = .ok content ↔
      t.Reaches p ∧ t.find? (t.locationOf p) = some (.file content) := by
  constructor
  · intro h
    obtain ⟨e, hlook, h⟩ := exists_ok_of_bind h
    obtain ⟨⟨l, e'⟩, hlocate, he⟩ := exists_ok_of_bind hlook
    cases he
    cases e' with
    | directory => cases h
    | file bytes =>
        cases h
        rcases locate_eq_ok hlocate with ⟨-, hdir⟩ | ⟨slash, ht, hfits, hfound, hslash⟩
        · cases hdir
        · obtain ⟨hr, hl⟩ := reaches_of_target ht (hslash (by simp)) hfits
          rw [hl]
          exact ⟨hr, hfound⟩
  · rintro ⟨hr, hfile⟩
    unfold readFile look locate
    rw [hr.target, ok_bind]
    dsimp only
    rw [hr.lookUp, hfile]
    rfl

/-- A file is read from any tree that still has the directories and that one entry. -/
theorem readFile_of_keepsDirectories {content : ByteArray} (h : t.KeepsDirectories s)
    (hread : t.readFile p = .ok content)
    (hfind : s.find? (t.locationOf p) = some (.file content)) : s.readFile p = .ok content := by
  refine readFile_eq_ok_iff.mpr ⟨(readFile_eq_ok_iff.mp hread).1.of_keepsDirectories h, ?_⟩
  rw [h.locationOf]
  exact hfind

end FileTree

end BenchGate
