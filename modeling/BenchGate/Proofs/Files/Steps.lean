import BenchGate.Files.Step
import BenchGate.Proofs.Files.Following

/-!
# What steps change

Each elementary change is told by what it needs and by what `find?` finds afterwards. From that come
the two facts that hold along any sequence of steps, stopped or not, and in the middle of a write:

* no directory goes away (`keepsDirectories_of_mem_statesOf`), so no way is closed;
* a location to which no path of the steps leads keeps what it has (`find?_of_mem_statesOf`).
-/

namespace BenchGate

namespace FileTree

variable {t s : FileTree} {p q : Path} {k : Location} {content : ByteArray}

/-- Both trees have the same file at a location, or neither of them has one. -/
def SameFile (t s : FileTree) (l : Location) : Prop :=
  ∀ content, s.find? l = some (.file content) ↔ t.find? l = some (.file content)

/-! ## Writing a file -/

theorem writeFile_eq_ok_iff :
    t.writeFile p content = .ok s ↔
      t.Reaches p ∧ t.find? (t.locationOf p) ≠ some .directory ∧
        t.insert (t.locationOf p) (.file content) = s := by
  constructor
  · intro h
    obtain ⟨x, ht, h⟩ := exists_ok_of_bind h
    split at h
    · cases h
    · cases h
    · obtain ⟨found, hf, h⟩ := exists_ok_of_bind h
      obtain ⟨hfits, rfl⟩ := lookUp_eq_ok_iff.mp hf
      obtain ⟨hr, hl⟩ := reaches_of_target ht rfl hfits
      split at h
      · cases h
      · rename_i hfree
        rw [hl]
        exact ⟨hr, hfree, Except.ok.inj h⟩
  · rintro ⟨hr, hfree, rfl⟩
    unfold writeFile
    rw [hr.target, ok_bind]
    dsimp only
    rw [hr.lookUp, ok_bind, if_neg hfree]

theorem find?_writeFile (h : t.writeFile p content = .ok s) (k : Location) :
    s.find? k = if k = t.locationOf p then some (.file content) else t.find? k := by
  obtain ⟨hr, hfree, rfl⟩ := writeFile_eq_ok_iff.mp h
  exact find?_insert hr.ne_nil hr.above hfree (fun hd => by cases hd) k

theorem keepsDirectories_writeFile (h : t.writeFile p content = .ok s) :
    t.KeepsDirectories s := by
  refine ⟨?_, fun {l} hl => ?_⟩
  · obtain ⟨-, -, rfl⟩ := writeFile_eq_ok_iff.mp h
    exact workingDirectory_insert _ _ _
  · rw [find?_writeFile h]
    split
    · rename_i heq
      exact absurd (heq ▸ hl) (writeFile_eq_ok_iff.mp h).2.1
    · exact hl

theorem readFile_of_writeFile (h : t.writeFile p content = .ok s) : s.readFile p = .ok content := by
  have hkeep := keepsDirectories_writeFile h
  refine readFile_eq_ok_iff.mpr ⟨(writeFile_eq_ok_iff.mp h).1.of_keepsDirectories hkeep, ?_⟩
  rw [hkeep.locationOf, find?_writeFile h, if_pos rfl]

/-! ## Making a directory -/

/-- What a new directory needs: a name that can be looked up, with nothing there. -/
structure HasRoomFor (t : FileTree) (p : Path) : Prop where
  target : ∃ slash, t.target p = .ok (.entry (t.locationOf p) slash)
  nameFits : (t.locationOf p).NameFits
  free : t.find? (t.locationOf p) = none

theorem makeDirectory_eq_ok (h : t.makeDirectory p = .ok s) :
    t.HasRoomFor p ∧ t.insert (t.locationOf p) .directory = s := by
  obtain ⟨x, ht, h⟩ := exists_ok_of_bind h
  split at h
  · cases h
  · rename_i l slash
    have hl : l = t.locationOf p := location_of_target ht
    subst hl
    obtain ⟨found, hf, h⟩ := exists_ok_of_bind h
    obtain ⟨hfits, rfl⟩ := lookUp_eq_ok_iff.mp hf
    split at h
    · rename_i hfree
      exact ⟨⟨⟨slash, ht⟩, hfits, hfree⟩, Except.ok.inj h⟩
    · cases h

theorem find?_makeDirectory (h : t.makeDirectory p = .ok s) (k : Location) :
    s.find? k = if k = t.locationOf p then some .directory else t.find? k := by
  obtain ⟨hroom, rfl⟩ := makeDirectory_eq_ok h
  obtain ⟨slash, ht⟩ := hroom.target
  have hholds := holds_of_target ht
  refine find?_insert hholds.1 hholds.2 ?_ (fun _ => hroom.free) k
  rw [hroom.free]
  simp

theorem keepsDirectories_makeDirectory (h : t.makeDirectory p = .ok s) :
    t.KeepsDirectories s := by
  refine ⟨?_, fun {l} hl => ?_⟩
  · obtain ⟨-, rfl⟩ := makeDirectory_eq_ok h
    exact workingDirectory_insert _ _ _
  · rw [find?_makeDirectory h]
    split
    · rfl
    · exact hl

/-- A target that is an existing directory. -/
def Entered (t : FileTree) : Target → Prop
  | .directory _ => True
  | .entry l _ => l.NameFits ∧ t.find? l = some .directory

theorem isDirectory_iff : t.isDirectory p = true ↔ ∃ x, t.target p = .ok x ∧ t.Entered x := by
  unfold isDirectory
  constructor
  · intro h
    split at h
    · rename_i hlook
      obtain ⟨⟨l, e⟩, hlocate, he⟩ := exists_ok_of_bind hlook
      cases he
      rcases locate_eq_ok hlocate with ⟨ht, -⟩ | ⟨slash, ht, hfits, hfound, -⟩
      · exact ⟨_, ht, trivial⟩
      · exact ⟨_, ht, hfits, hfound⟩
    · cases h
  · rintro ⟨x, ht, hx⟩
    unfold look locate
    rw [ht, ok_bind]
    cases x with
    | directory l => rfl
    | entry l slash =>
        dsimp only
        rw [lookUp_eq_ok_iff.mpr hx]
        rfl

theorem isDirectory_of_keepsDirectories (h : t.KeepsDirectories s) (hd : t.isDirectory p = true) :
    s.isDirectory p = true := by
  obtain ⟨x, ht, hx⟩ := isDirectory_iff.mp hd
  refine isDirectory_iff.mpr ⟨x, target_of_keepsDirectories h ht, ?_⟩
  cases x with
  | directory l => trivial
  | entry l slash => exact ⟨hx.1, h.find? hx.2⟩

theorem isDirectory_makeDirectory (h : t.makeDirectory p = .ok s) : s.isDirectory p = true := by
  obtain ⟨hroom, -⟩ := makeDirectory_eq_ok h
  obtain ⟨slash, ht⟩ := hroom.target
  refine isDirectory_iff.mpr ⟨_, target_of_keepsDirectories (keepsDirectories_makeDirectory h) ht,
    hroom.nameFits, ?_⟩
  rw [find?_makeDirectory h, if_pos rfl]

/-- A directory that exists is not made again. -/
theorem makeDirectory_of_isDirectory (h : t.isDirectory p = true) :
    t.makeDirectory p = .error .alreadyExists := by
  obtain ⟨x, ht, hx⟩ := isDirectory_iff.mp h
  unfold makeDirectory
  rw [ht, ok_bind]
  cases x with
  | directory l => rfl
  | entry l slash =>
      dsimp only
      rw [lookUp_eq_ok_iff.mpr hx]
      rfl

/-! ## Moving a file -/

theorem moveFile_eq_ok_iff :
    t.moveFile p q = .ok s ↔
      t.Reaches p ∧ t.Reaches q ∧ t.find? (t.locationOf q) ≠ some .directory ∧
        ∃ content, t.find? (t.locationOf p) = some (.file content) ∧
          (if t.locationOf p = t.locationOf q then t
            else (t.remove (t.locationOf p)).insert (t.locationOf q) (.file content)) = s := by
  constructor
  · intro h
    obtain ⟨x, hp, h⟩ := exists_ok_of_bind h
    obtain ⟨y, hq, h⟩ := exists_ok_of_bind h
    split at h
    · obtain ⟨found, hold, h⟩ := exists_ok_of_bind h
      obtain ⟨holdFits, hfound⟩ := lookUp_eq_ok_iff.mp hold
      split at h
      · cases h
      · cases h
      · rename_i content
        obtain ⟨replaced, hnew, h⟩ := exists_ok_of_bind h
        obtain ⟨hnewFits, rfl⟩ := lookUp_eq_ok_iff.mp hnew
        split at h
        · cases h
        · rename_i hslash
          rw [not_or, Bool.not_eq_true, Bool.not_eq_true] at hslash
          obtain ⟨hrp, hlp⟩ := reaches_of_target hp hslash.1 holdFits
          obtain ⟨hrq, hlq⟩ := reaches_of_target hq hslash.2 hnewFits
          split at h
          · cases h
          · rename_i hfree
            rw [hlp, hlq]
            refine ⟨hrp, hrq, hfree, content, hfound, ?_⟩
            split at h
            · rename_i hsame
              rw [if_pos hsame]
              exact Except.ok.inj h
            · rename_i hother
              rw [if_neg hother]
              exact Except.ok.inj h
    · cases h
  · rintro ⟨hrp, hrq, hfree, content, hfile, rfl⟩
    unfold moveFile
    rw [hrp.target, ok_bind, hrq.target, ok_bind]
    dsimp only
    rw [hrp.lookUp, ok_bind, hfile]
    dsimp only
    rw [hrq.lookUp, ok_bind, if_neg (by simp), if_neg hfree]
    split <;> rfl

theorem find?_moveFile (h : t.moveFile p q = .ok s) :
    ∃ content, t.find? (t.locationOf p) = some (.file content) ∧
      ∀ k, s.find? k = if k = t.locationOf q then some (.file content)
        else if k = t.locationOf p then none else t.find? k := by
  obtain ⟨-, hrq, hfree, content, hfile, hs⟩ := moveFile_eq_ok_iff.mp h
  refine ⟨content, hfile, fun k => ?_⟩
  split at hs
  · rename_i hsame
    subst hs
    by_cases hk : k = t.locationOf q
    · rw [if_pos hk, hk, ← hsame, hfile]
    · rw [if_neg hk, hsame, if_neg hk]
  · rename_i hother
    have hremove := find?_remove_file hfile
    have habove : t.locationOf p ≠ (t.locationOf q).dropLast := by
      intro heq
      rw [heq, hrq.above] at hfile
      cases hfile
    subst hs
    rw [find?_insert hrq.ne_nil, hremove]
    · rw [hremove, if_neg (Ne.symm habove), hrq.above]
    · rw [hremove, if_neg (Ne.symm hother)]
      exact hfree
    · intro hd
      cases hd

theorem keepsDirectories_moveFile (h : t.moveFile p q = .ok s) : t.KeepsDirectories s := by
  obtain ⟨content, hfile, hfind⟩ := find?_moveFile h
  obtain ⟨-, -, hfree, _, -, hs⟩ := moveFile_eq_ok_iff.mp h
  refine ⟨?_, fun {l} hl => ?_⟩
  · subst hs
    split
    · rfl
    · rw [workingDirectory_insert, workingDirectory_remove]
  · have hnew : l ≠ t.locationOf q := by
      intro heq
      exact hfree (heq ▸ hl)
    have hold : l ≠ t.locationOf p := by
      intro heq
      rw [heq, hfile] at hl
      cases hl
    rw [hfind, if_neg hnew, if_neg hold, hl]

end FileTree

/-! ## One step -/

namespace FileStep

open FileTree

variable {t s : FileTree} {g : FileStep} {p : Path} {k : Location}

/-- The locations to which the paths of a step lead. -/
def touches (t : FileTree) : FileStep → List Location
  | ensureDirectory path => [t.locationOf path]
  | write path _ => [t.locationOf path]
  | move source destination => [t.locationOf source, t.locationOf destination]

theorem touches_of_keepsDirectories (h : t.KeepsDirectories s) (g : FileStep) :
    g.touches s = g.touches t := by
  cases g <;> simp only [touches, h.locationOf]

theorem run_ensureDirectory (h : (ensureDirectory p).run t = .ok s) :
    t.makeDirectory p = .ok s ∨ t.isDirectory p = true ∧ t = s := by
  simp only [run] at h
  split at h
  · rename_i made hmade
    rw [← Except.ok.inj h]
    exact .inl hmade
  · split at h
    · rename_i hdir
      exact .inr ⟨hdir, Except.ok.inj h⟩
    · cases h

theorem isDirectory_of_run_ensureDirectory (h : (ensureDirectory p).run t = .ok s) :
    s.isDirectory p = true := by
  rcases run_ensureDirectory h with hmade | ⟨hdir, rfl⟩
  · exact isDirectory_makeDirectory hmade
  · exact hdir

theorem run_ensureDirectory_of_isDirectory (h : t.isDirectory p = true) :
    (ensureDirectory p).run t = .ok t := by
  simp only [run, makeDirectory_of_isDirectory h]
  exact if_pos h

theorem keepsDirectories_run (h : g.run t = .ok s) : t.KeepsDirectories s := by
  cases g with
  | ensureDirectory path =>
      rcases run_ensureDirectory h with hmade | ⟨-, rfl⟩
      · exact keepsDirectories_makeDirectory hmade
      · exact .refl t
  | write path content => exact keepsDirectories_writeFile h
  | move source destination => exact keepsDirectories_moveFile h

/-- **A step changes nothing where none of its paths leads.** -/
theorem find?_run (h : g.run t = .ok s) (hk : k ∉ g.touches t) : s.find? k = t.find? k := by
  cases g with
  | ensureDirectory path =>
      rcases run_ensureDirectory h with hmade | ⟨-, rfl⟩
      · rw [find?_makeDirectory hmade, if_neg (by simpa [touches] using hk)]
      · rfl
  | write path content =>
      rw [find?_writeFile h, if_neg (by simpa [touches] using hk)]
  | move source destination =>
      obtain ⟨content, -, hfind⟩ := find?_moveFile h
      simp only [touches, List.mem_cons, List.not_mem_nil, or_false, not_or] at hk
      rw [hfind, if_neg hk.2, if_neg hk.1]

/-- A directory is made only where nothing was. -/
theorem find?_run_ensureDirectory (h : (ensureDirectory p).run t = .ok s) (k : Location) :
    s.find? k = t.find? k ∨
      k = t.locationOf p ∧ t.find? k = none ∧ s.find? k = some .directory := by
  rcases run_ensureDirectory h with hmade | ⟨-, rfl⟩
  · rw [find?_makeDirectory hmade]
    split
    · rename_i heq
      exact .inr ⟨heq, heq ▸ (makeDirectory_eq_ok hmade).1.free, rfl⟩
    · exact .inl rfl
  · exact .inl rfl

/-- What is seen of a step under way is what a shorter write would leave. -/
theorem exists_write_of_midway (h : s ∈ g.midway t) :
    ∃ path content part, g = .write path content ∧ (write path part).run t = .ok s := by
  cases g with
  | ensureDirectory path => cases h
  | move source destination => cases h
  | write path content =>
      obtain ⟨n, -, hn⟩ := List.mem_filterMap.mp h
      refine ⟨path, content, content.extract 0 n, rfl, ?_⟩
      cases hw : t.writeFile path (content.extract 0 n) with
      | error cause =>
          rw [hw] at hn
          cases hn
      | ok after =>
          rw [hw] at hn
          cases hn
          exact hw

/-- `g.Shows t s`: someone who looks on while `g` changes `t` can see `s`. -/
def Shows (g : FileStep) (t s : FileTree) : Prop := g.run t = .ok s ∨ s ∈ g.midway t

theorem Shows.keepsDirectories (h : g.Shows t s) : t.KeepsDirectories s := by
  rcases h with hrun | hmid
  · exact keepsDirectories_run hrun
  · obtain ⟨path, content, part, rfl, hrun⟩ := exists_write_of_midway hmid
    exact keepsDirectories_run hrun

theorem Shows.find? (h : g.Shows t s) (hk : k ∉ g.touches t) : s.find? k = t.find? k := by
  rcases h with hrun | hmid
  · exact find?_run hrun hk
  · obtain ⟨path, content, part, rfl, hrun⟩ := exists_write_of_midway hmid
    exact find?_run hrun hk

end FileStep

/-! ## Sequences of steps -/

section Sequences

open FileTree FileStep

variable {ε : Type} {t s after : FileTree} {g : Guarded ε} {gs hs rest : List (Guarded ε)}
  {cause : FileError} {k : Location}

theorem runSteps_cons_ok (h : g.step.run t = .ok after) :
    runSteps t (g :: rest) = runSteps after rest := by
  rw [runSteps, h]

theorem runSteps_cons_error (h : g.step.run t = .error cause) :
    runSteps t (g :: rest) = (t, .error (g.failure cause)) := by
  rw [runSteps, h]

theorem statesOf_cons_ok (h : g.step.run t = .ok after) :
    statesOf t (g :: rest) = t :: g.step.midway t ++ statesOf after rest := by
  rw [statesOf, h]

theorem statesOf_cons_error (h : g.step.run t = .error cause) :
    statesOf t (g :: rest) = [t] := by
  rw [statesOf, h]

theorem mem_statesOf_self (t : FileTree) (gs : List (Guarded ε)) : t ∈ statesOf t gs := by
  cases gs with
  | nil => exact List.mem_singleton_self t
  | cons g rest =>
      cases hrun : g.step.run t with
      | error cause =>
          rw [statesOf_cons_error hrun]
          exact List.mem_singleton_self t
      | ok after =>
          rw [statesOf_cons_ok hrun]
          exact List.mem_cons_self

/-- The last tree that can be seen is the one that the steps leave. -/
theorem runSteps_mem_statesOf (t : FileTree) (gs : List (Guarded ε)) :
    (runSteps t gs).1 ∈ statesOf t gs := by
  induction gs generalizing t with
  | nil => exact List.mem_singleton_self t
  | cons g rest ih =>
      cases hrun : g.step.run t with
      | error cause =>
          rw [runSteps_cons_error hrun, statesOf_cons_error hrun]
          exact List.mem_singleton_self t
      | ok after =>
          rw [runSteps_cons_ok hrun, statesOf_cons_ok hrun]
          exact List.mem_append_right _ (ih after)

theorem mem_statesOf_of_runSteps {r : Except ε Unit} (h : runSteps t gs = (s, r)) :
    s ∈ statesOf t gs := by
  have hlast := runSteps_mem_statesOf t gs
  rwa [h] at hlast

/-- **What every step keeps in all that it shows is kept in every tree that can be seen.** -/
theorem statesOf_induction {P : FileTree → Prop} (ht : P t)
    (hstep : ∀ g ∈ gs, ∀ u v, P u → g.step.Shows u v → P v) : ∀ s ∈ statesOf t gs, P s := by
  induction gs generalizing t with
  | nil =>
      intro s hs
      rw [List.mem_singleton.mp hs]
      exact ht
  | cons g rest ih =>
      intro s hs
      have hshown := hstep g List.mem_cons_self
      cases hrun : g.step.run t with
      | error cause =>
          rw [statesOf_cons_error hrun] at hs
          rw [List.mem_singleton.mp hs]
          exact ht
      | ok after =>
          rw [statesOf_cons_ok hrun] at hs
          rcases List.mem_append.mp hs with hfirst | hrest
          · rcases List.mem_cons.mp hfirst with rfl | hmid
            · exact ht
            · exact hshown t s ht (.inr hmid)
          · exact ih (hshown t after ht (.inl hrun))
              (fun g hg => hstep g (List.mem_cons_of_mem _ hg)) s hrest

theorem keepsDirectories_of_mem_statesOf (h : s ∈ statesOf t gs) : t.KeepsDirectories s :=
  statesOf_induction (.refl t) (fun _ _ _ _ hkeep hshow => hkeep.trans hshow.keepsDirectories) s h

/-- **What no path of the steps leads to is left as it was.** -/
theorem find?_of_mem_statesOf (h : s ∈ statesOf t gs) (hk : ∀ g ∈ gs, k ∉ g.step.touches t) :
    s.find? k = t.find? k := by
  have hboth : t.KeepsDirectories s ∧ s.find? k = t.find? k := by
    refine statesOf_induction (P := fun s => t.KeepsDirectories s ∧ s.find? k = t.find? k)
      ⟨.refl t, rfl⟩ (fun g hg u v hu hshow => ?_) s h
    have htouch : k ∉ g.step.touches u := by
      rw [touches_of_keepsDirectories hu.1]
      exact hk g hg
    exact ⟨hu.1.trans hshow.keepsDirectories, by rw [hshow.find? htouch, hu.2]⟩
  exact hboth.2

theorem runSteps_append (t : FileTree) (gs hs : List (Guarded ε)) :
    runSteps t (gs ++ hs) =
      match runSteps t gs with
      | (after, .ok ()) => runSteps after hs
      | (after, .error e) => (after, .error e) := by
  induction gs generalizing t with
  | nil => rfl
  | cons g rest ih =>
      rw [List.cons_append]
      cases hrun : g.step.run t with
      | error cause => rw [runSteps_cons_error hrun, runSteps_cons_error hrun]
      | ok after => rw [runSteps_cons_ok hrun, runSteps_cons_ok hrun, ih after]

/-- **A sequence that is stopped went through up to a step that is refused.** -/
theorem exists_stop_of_runSteps {e : ε} (h : runSteps t gs = (s, .error e)) :
    ∃ done g rest cause, gs = done ++ g :: rest ∧ runSteps t done = (s, .ok ()) ∧
      g.step.run s = .error cause ∧ g.failure cause = e := by
  induction gs generalizing t with
  | nil => cases h
  | cons g rest ih =>
      cases hrun : g.step.run t with
      | error cause =>
          rw [runSteps_cons_error hrun] at h
          cases h
          exact ⟨[], g, rest, cause, rfl, rfl, hrun, rfl⟩
      | ok after =>
          rw [runSteps_cons_ok hrun] at h
          obtain ⟨done, g', rest', cause, rfl, hdone, hstop⟩ := ih h
          refine ⟨g :: done, g', rest', cause, rfl, ?_, hstop⟩
          rw [runSteps_cons_ok hrun, hdone]

/-- The error of a sequence is the failure of one of its steps. -/
theorem exists_failure_of_runSteps {e : ε} (h : runSteps t gs = (s, .error e)) :
    ∃ g ∈ gs, ∃ cause, g.failure cause = e := by
  obtain ⟨done, g, rest, cause, rfl, -, -, hcause⟩ := exists_stop_of_runSteps h
  exact ⟨g, List.mem_append_right _ List.mem_cons_self, cause, hcause⟩

/-- Later steps are seen only when the earlier ones went through. -/
theorem mem_statesOf_append (h : s ∈ statesOf t (gs ++ hs)) :
    s ∈ statesOf t gs ∨ ∃ after, runSteps t gs = (after, .ok ()) ∧ s ∈ statesOf after hs := by
  induction gs generalizing t with
  | nil => exact .inr ⟨t, rfl, h⟩
  | cons g rest ih =>
      rw [List.cons_append] at h
      cases hrun : g.step.run t with
      | error cause =>
          rw [statesOf_cons_error hrun] at h ⊢
          exact .inl h
      | ok after =>
          rw [statesOf_cons_ok hrun] at h ⊢
          rw [runSteps_cons_ok hrun]
          rcases List.mem_append.mp h with hfirst | hlater
          · exact .inl (List.mem_append_left _ hfirst)
          · rcases ih hlater with hrest | hafter
            · exact .inl (List.mem_append_right _ hrest)
            · exact .inr hafter

end Sequences

end BenchGate
