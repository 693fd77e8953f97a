import BenchGate.Proofs.Files.Directories
import BenchGate.Proofs.Files.Within

/-!
# The same steps again

What wrote a report once writes it again. The directories that were made are found, and where one
could not be made, it cannot be made the next time either. The files are replaced by themselves.

What a path shows the next time it showed before, if its place has kept what it had and no way was
opened to it. The only ways that making directories can open go up again somewhere.
-/

namespace BenchGate

open FileTree FileStep

variable {t s u v : FileTree} {p q : Path} {l : Location} {x : Target} {a b segments : List String}

/-! ## Above a target -/

namespace FileTree

/-- On the way to a target, every front of the way leads into a directory. -/
theorem Follows.front (h : t.Follows l (a ++ b) x) (hb : b.all (· = "") = false) :
    ∃ y, t.Follows l a y ∧ t.Entered y := by
  induction a generalizing l with
  | nil => exact ⟨_, .done l, trivial⟩
  | cons segment rest ih =>
      rw [List.cons_append] at h
      cases h with
      | stay hstay hrest =>
          obtain ⟨y, hy, hentered⟩ := ih hrest
          exact ⟨y, .stay hstay hy, hentered⟩
      | up hrest =>
          obtain ⟨y, hy, hentered⟩ := ih hrest
          exact ⟨y, .up hy, hentered⟩
      | last _ hname hall =>
          rw [List.all_append, hb, Bool.and_false] at hall
          cases hall
      | into hname _ hdir hrest =>
          cases hblank : rest.all (· = "") with
          | true => exact ⟨_, .last l hname hblank, lookUp_eq_ok_iff.mp hdir⟩
          | false =>
              obtain ⟨y, hy, hentered⟩ := ih hrest
              exact ⟨y, .into hname hblank hdir hy, hentered⟩

end FileTree

namespace Path

/-- What is cut off to get above a path has a segment that is not empty. -/
theorem exists_trimmed_eq (h : (trimEnd segments).dropLast ≠ []) :
    ∃ behind, segments = trimEnd (trimEnd segments).dropLast ++ behind ∧
      behind.all (· = "") = false := by
  obtain ⟨trimmed, htrimmed⟩ := prefix_trimEnd (trimEnd segments).dropLast
  obtain ⟨stayed, hstayed⟩ := prefix_trimEnd segments
  obtain ⟨front, last, hlast, hmoves⟩ : ∃ front last, trimEnd segments = front ++ [last] ∧
      last ≠ "" := by
    cases segments with
    | nil => exact absurd rfl h
    | cons first rest =>
        rw [trimEnd] at h ⊢
        cases hrest : rest.reverse.dropWhile stays with
        | nil =>
            rw [hrest] at h
            exact absurd rfl h
        | cons last more =>
            refine ⟨first :: more.reverse, last, by rw [List.reverse_cons]; rfl, ?_⟩
            have hhead : stays last = false := by
              have hnot := List.head?_dropWhile_not stays rest.reverse
              rwa [hrest] at hnot
            rintro rfl
            exact absurd hhead (by decide)
  have hsplit : segments = front ++ last :: stayed := by
    rw [List.append_cons, ← hlast, hstayed]
  refine ⟨trimmed ++ last :: stayed, ?_, ?_⟩
  · rw [← List.append_assoc, htrimmed, hlast, List.dropLast_concat]
    exact hsplit
  · rw [List.all_append, List.all_cons, decide_eq_false hmoves, Bool.false_and, Bool.and_false]

end Path

namespace FileTree

theorem isDirectory_of_front (ht : t.target p = .ok x) (hsplit : p.segments = a ++ b)
    (ha : a ≠ []) (hb : b.all (· = "") = false) (hempty : (Path.mk a).isEmpty = false)
    (hstart : (Path.mk a).start t.workingDirectory = p.start t.workingDirectory) :
    t.isDirectory ⟨a⟩ = true := by
  obtain ⟨⟨hfree, hfits, -⟩, hfollows⟩ := target_eq_ok_iff.mp ht
  rw [hsplit] at hfree hfollows
  obtain ⟨y, hy, hentered⟩ := hfollows.front hb
  refine isDirectory_iff.mpr ⟨y, target_eq_ok_iff.mpr ⟨⟨?_, ?_, hempty⟩, ?_⟩, hentered⟩
  · rw [List.any_append, Bool.or_eq_false_iff] at hfree
    exact hfree.1
  · have hspan : Path.span p.segments ≤ longestPath + 1 :=
      (Path.hasFittingLength_iff (by simp [hsplit, ha])).mp hfits
    rw [Path.hasFittingLength_iff ha]
    rw [hsplit, Path.span_append] at hspan
    omega
  · rw [hstart]
    exact hy

/-- **Above a target there is a directory.** -/
theorem isDirectory_parent (hparent : p.parent? = some q) (hq : q.isEmpty = false)
    (ht : t.target p = .ok x) : t.isDirectory q = true := by
  unfold Path.parent? at hparent
  split at hparent
  · cases hparent
  · cases hparent
  · by_cases hnil : (Path.trimEnd p.segments).dropLast = []
    · rw [hnil] at hparent
      cases hparent
      cases hq
    · obtain ⟨behind, hsplit, hbehind⟩ := Path.exists_trimmed_eq hnil
      have hfront := isDirectory_of_front ht hsplit
      split at hparent
      · cases hparent
        cases hq
      · rename_i first hfirst
        rw [hfirst] at hsplit hfront
        cases habs : p.isAbsolute with
        | true =>
            rw [habs] at hparent
            cases hparent
            obtain ⟨second, rest, hroot⟩ := Path.isAbsolute_iff.mp habs
            rw [hroot, List.singleton_append, List.cons.injEq] at hsplit
            rw [← hsplit.1]
            rfl
        | false =>
            rw [habs, if_neg Bool.false_ne_true] at hparent
            cases hparent
            refine hfront (by simp) hbehind hq ?_
            rw [Path.start, Path.start, habs, Path.isAbsolute_singleton]
      · rename_i hnone hone
        cases hparent
        refine hfront hnone hbehind hq ?_
        cases htrimmed : Path.trimEnd (Path.trimEnd p.segments).dropLast with
        | nil => exact absurd htrimmed hnone
        | cons first more =>
            cases more with
            | nil => exact absurd htrimmed (hone first)
            | cons second rest =>
                refine Path.start_of_prefix ?_
                rw [hsplit, htrimmed]
                exact List.prefix_append _ _

end FileTree

/-! ## Making directories again -/

section Making

variable {ε : Type} {failure : FileError → ε} {above : List Path} {e : ε}

theorem exists_target_of_run_ensureDirectory (h : (ensureDirectory p).run t = .ok s) :
    ∃ x, t.target p = .ok x := by
  rcases run_ensureDirectory h with hmade | ⟨hdir, -⟩
  · obtain ⟨slash, ht⟩ := (makeDirectory_eq_ok hmade).1.target
    exact ⟨_, ht⟩
  · obtain ⟨x, ht, -⟩ := isDirectory_iff.mp hdir
    exact ⟨x, ht⟩

theorem run_of_runSteps_ensuring (h : runSteps t (ensuring failure [p]) = (u, .error e)) :
    t = u ∧ ∃ cause, (ensureDirectory p).run t = .error cause := by
  cases hrun : (ensureDirectory p).run t with
  | error cause =>
      rw [ensuring, List.map_singleton, runSteps_cons_error hrun] at h
      cases h
      exact ⟨rfl, cause, rfl⟩
  | ok after =>
      rw [ensuring, List.map_singleton, runSteps_cons_ok hrun] at h
      cases h

/-- The steps that make a directory with those above it. -/
def makingSteps (failure : FileError → ε) (t : FileTree) (paths : List Path) : List (Guarded ε) :=
  ensuring failure (t.upToMakeable paths).reverse

theorem makingSteps_of_notFound (h : t.makeDirectory p = .error .notFound) :
    makingSteps failure t (p :: above) = makingSteps failure t above ++ ensuring failure [p] := by
  unfold makingSteps
  rw [upToMakeable, h, List.reverse_cons]
  exact List.map_append

theorem makingSteps_of_other (h : t.makeDirectory p ≠ .error .notFound) :
    makingSteps failure t (p :: above) = ensuring failure [p] := by
  unfold makingSteps
  rw [upToMakeable]
  split
  · rename_i heq
    exact absurd heq h
  · rfl

theorem runSteps_makingSteps_of_isDirectory (h : above = [] ∨ ∃ q more, above = q :: more ∧
    t.isDirectory q = true) : runSteps t (makingSteps failure t above) = (t, .ok ()) := by
  rcases h with rfl | ⟨q, more, rfl, hq⟩
  · rfl
  · rw [makingSteps_of_other (by simp [makeDirectory_of_isDirectory hq])]
    exact runSteps_cons_ok (run_ensureDirectory_of_isDirectory hq)

theorem isDirectory_of_runSteps_makingSteps
    (h : runSteps t (makingSteps failure t (p :: above)) = (s, .ok ())) :
    s.isDirectory p = true := by
  have hlast : ∀ {u : FileTree}, runSteps u (ensuring failure [p]) = (s, .ok ()) →
      s.isDirectory p = true := by
    intro u hu
    cases hrun : (ensureDirectory p).run u with
    | error cause =>
        rw [ensuring, List.map_singleton, runSteps_cons_error hrun] at hu
        cases hu
    | ok after =>
        rw [ensuring, List.map_singleton, runSteps_cons_ok hrun] at hu
        cases hu
        exact isDirectory_of_run_ensureDirectory hrun
  by_cases hp : t.makeDirectory p = .error .notFound
  · rw [makingSteps_of_notFound hp, runSteps_append] at h
    split at h
    · exact hlast h
    · cases h
  · rw [makingSteps_of_other hp] at h
    exact hlast h

/-- If making the directories above is stopped again where it was stopped, so is making this one. -/
theorem runSteps_makingSteps_again
    (hparent : ∀ q more, above = q :: more → ∀ (u : FileTree) (x : Target),
      u.target p = .ok x → u.isDirectory q = true)
    (habove : ∀ e, runSteps t (makingSteps failure t above) = (u, .error e) →
      ∃ e', runSteps u (makingSteps failure u above) = (u, .error e'))
    (h : runSteps t (makingSteps failure t (p :: above)) = (u, .error e)) :
    ∃ e', runSteps u (makingSteps failure u (p :: above)) = (u, .error e') := by
  by_cases hp : t.makeDirectory p = .error .notFound
  · rw [makingSteps_of_notFound hp, runSteps_append] at h
    split at h
    · -- the directories above are there, and this one is refused
      rename_i made hmade
      obtain ⟨rfl, cause, hrun⟩ := run_of_runSteps_ensuring h
      have hrefused : runSteps made (ensuring failure [p]) = (made, .error (failure cause)) :=
        runSteps_cons_error hrun
      refine ⟨failure cause, ?_⟩
      by_cases hagain : made.makeDirectory p = .error .notFound
      · have hthere : runSteps made (makingSteps failure made above) = (made, .ok ()) := by
          refine runSteps_makingSteps_of_isDirectory ?_
          cases above with
          | nil => exact .inl rfl
          | cons q more => exact .inr ⟨q, more, rfl, isDirectory_of_runSteps_makingSteps hmade⟩
        rw [makingSteps_of_notFound hagain, runSteps_append, hthere]
        exact hrefused
      · rw [makingSteps_of_other hagain]
        exact hrefused
    · -- one of the directories above is refused
      rename_i made e' hfailed
      cases h
      obtain ⟨e', hagain⟩ := habove e hfailed
      by_cases hmissing : u.makeDirectory p = .error .notFound
      · rw [makingSteps_of_notFound hmissing, runSteps_append, hagain]
        exact ⟨e', rfl⟩
      · rw [makingSteps_of_other hmissing]
        cases hrun : (ensureDirectory p).run u with
        | error cause => exact ⟨failure cause, runSteps_cons_error hrun⟩
        | ok after =>
            -- then its parent would be there
            obtain ⟨x, hx⟩ := exists_target_of_run_ensureDirectory hrun
            have hthere : runSteps u (makingSteps failure u above) = (u, .ok ()) := by
              refine runSteps_makingSteps_of_isDirectory ?_
              cases above with
              | nil => exact .inl rfl
              | cons q more => exact .inr ⟨q, more, rfl, hparent q more rfl u x hx⟩
            rw [hthere] at hagain
            cases hagain
  · -- nothing but this directory was tried, so nothing was made
    rw [makingSteps_of_other hp] at h
    obtain ⟨rfl, cause, hrun⟩ := run_of_runSteps_ensuring h
    rw [makingSteps_of_other hp]
    exact ⟨e, h⟩

/-- **Where making a directory was stopped, it is stopped again**, and nothing more is made. -/
theorem runSteps_directoriesFor_again
    (h : runSteps t (ensuring failure (t.directoriesFor p)) = (u, .error e)) :
    ∃ e', runSteps u (ensuring failure (u.directoriesFor p)) = (u, .error e') := by
  have hchain : ∀ (fuel : Nat) (p : Path) (e : ε),
      runSteps t (makingSteps failure t (p.andAbove fuel)) = (u, .error e) →
      ∃ e', runSteps u (makingSteps failure u (p.andAbove fuel)) = (u, .error e') := by
    intro fuel
    induction fuel with
    | zero =>
        intro p e h
        cases h
    | succ fuel ih =>
        intro p e h
        rw [Path.andAbove] at h ⊢
        split at h
        · cases h
        · rename_i hempty
          rw [if_neg hempty]
          refine runSteps_makingSteps_again ?_ ?_ h
          · intro q more heq u x hx
            split at heq
            · cases heq
            · rename_i parent hparent
              cases fuel with
              | zero => cases heq
              | succ fuel =>
                  rw [Path.andAbove] at heq
                  split at heq
                  · cases heq
                  · rename_i hq
                    cases heq
                    exact isDirectory_parent hparent (by simpa using hq) hx
          · intro e he
            split at he
            · cases he
            · exact ih _ e he
  exact hchain _ p e h

end Making

/-! ## Writing files again -/

namespace FileTree

variable {content : ByteArray}

/-- Trees with the same directories. -/
def SameDirectories (t s : FileTree) : Prop := t.KeepsDirectories s ∧ s.KeepsDirectories t

theorem SameDirectories.refl (t : FileTree) : t.SameDirectories t := ⟨.refl t, .refl t⟩

theorem SameDirectories.symm (h : t.SameDirectories s) : s.SameDirectories t := ⟨h.2, h.1⟩

theorem SameDirectories.trans (h : t.SameDirectories s) (h' : s.SameDirectories u) :
    t.SameDirectories u := ⟨h.1.trans h'.1, h'.2.trans h.2⟩

/-- A file that is written is no directory, before and after. -/
theorem sameDirectories_writeFile (h : t.writeFile p content = .ok s) : t.SameDirectories s := by
  have hkeep := keepsDirectories_writeFile h
  refine ⟨hkeep, hkeep.home.symm, fun {l} hl => ?_⟩
  rw [find?_writeFile h] at hl
  split at hl
  · cases hl
  · exact hl

/-- Only directories can be in the way of a file. -/
theorem exists_writeFile (hsame : t.SameDirectories s) (h : t.writeFile p content = .ok u) :
    ∃ v, s.writeFile p content = .ok v := by
  obtain ⟨hreaches, hfree, -⟩ := writeFile_eq_ok_iff.mp h
  refine ⟨_, writeFile_eq_ok_iff.mpr ⟨hreaches.of_keepsDirectories hsame.1, fun hdir => ?_, rfl⟩⟩
  rw [hsame.1.locationOf] at hdir
  exact hfree (hsame.2.find? hdir)

end FileTree

section Writing

variable {ε : Type} {gs : List (Guarded ε)}

/-- All steps write files. -/
def Writes (gs : List (Guarded ε)) : Prop := ∀ g ∈ gs, ∃ path content, g.step = .write path content

theorem sameDirectories_of_writes (hgs : Writes gs) (t : FileTree) :
    t.SameDirectories (runSteps t gs).1 := by
  induction gs generalizing t with
  | nil => exact .refl t
  | cons g rest ih =>
      obtain ⟨path, content, hstep⟩ := hgs g List.mem_cons_self
      cases hrun : g.step.run t with
      | error cause =>
          rw [runSteps_cons_error hrun]
          exact .refl t
      | ok after =>
          rw [runSteps_cons_ok hrun]
          rw [hstep] at hrun
          exact (sameDirectories_writeFile hrun).trans
            (ih (fun other hother => hgs other (List.mem_cons_of_mem _ hother)) after)

/-- **The same files are written in every tree with the same directories**, and no others. -/
theorem runSteps_writes (hgs : Writes gs) (hsame : t.SameDirectories s) :
    (runSteps s gs).2.isOk = (runSteps t gs).2.isOk ∧
      ∀ l, (runSteps s gs).1.find? l = (runSteps t gs).1.find? l ∨
        (runSteps s gs).1.find? l = s.find? l ∧ (runSteps t gs).1.find? l = t.find? l := by
  induction gs generalizing t s with
  | nil => exact ⟨rfl, fun l => .inr ⟨rfl, rfl⟩⟩
  | cons g rest ih =>
      obtain ⟨path, content, hstep⟩ := hgs g List.mem_cons_self
      have hrest : Writes rest := fun other hother => hgs other (List.mem_cons_of_mem _ hother)
      cases hrun : g.step.run t with
      | error cause =>
          cases hrun' : g.step.run s with
          | error cause' =>
              rw [runSteps_cons_error hrun, runSteps_cons_error hrun']
              exact ⟨rfl, fun l => .inr ⟨rfl, rfl⟩⟩
          | ok v =>
              rw [hstep] at hrun hrun'
              obtain ⟨u, hu⟩ := exists_writeFile hsame.symm hrun'
              cases hu.symm.trans hrun
      | ok u =>
          rw [hstep] at hrun
          obtain ⟨v, hrun'⟩ := exists_writeFile hsame hrun
          have hback := (sameDirectories_writeFile hrun).symm
          have hsame' : u.SameDirectories v :=
            hback.trans (hsame.trans (sameDirectories_writeFile hrun'))
          obtain ⟨hok, hfind⟩ := ih hrest hsame'
          have hstept : g.step.run t = .ok u := by rw [hstep]; exact hrun
          have hsteps : g.step.run s = .ok v := by rw [hstep]; exact hrun'
          rw [runSteps_cons_ok hstept, runSteps_cons_ok hsteps]
          refine ⟨hok, fun l => ?_⟩
          rcases hfind l with heq | ⟨hs, ht⟩
          · exact .inl heq
          · rw [hs, ht, find?_writeFile hrun, find?_writeFile hrun', hsame.1.locationOf]
            split
            · exact .inl rfl
            · exact .inr ⟨rfl, rfl⟩

end Writing

/-! ## What is found later was found before -/

namespace FileTree

variable {d : Path} {name : String} {e : Entry}

theorem prefix_foldl_step (hup : ".." ∉ segments) (l : Location) :
    l <+: segments.foldl Location.step l := by
  induction segments generalizing l with
  | nil => exact List.prefix_refl l
  | cons segment rest ih =>
      rw [List.mem_cons, not_or] at hup
      refine List.IsPrefix.trans ?_ (ih hup.2 (l.step segment))
      unfold Location.step
      rw [if_neg (Ne.symm hup.1)]
      split
      · exact List.prefix_refl l
      · exact List.prefix_append l _

/-- A way that never goes up was open before to what was there before. -/
theorem Follows.of_kept (hup : ".." ∉ segments) (h : s.Follows l segments x)
    (hs : s.find? x.location = some e) (ht : t.find? x.location = some e) :
    t.Follows l segments x := by
  induction h with
  | done l => exact .done l
  | stay hstay _ ih =>
      rw [List.mem_cons, not_or] at hup
      exact .stay hstay (ih hup.2 hs ht)
  | up _ ih => exact absurd List.mem_cons_self hup
  | last l hname hall => exact .last l hname hall
  | @into l segment rest x hname hall hdir hrest ih =>
      rw [List.mem_cons, not_or] at hup
      obtain ⟨hfits, hfound⟩ := lookUp_eq_ok_iff.mp hdir
      refine .into hname hall (lookUp_eq_ok_iff.mpr ⟨hfits, ?_⟩) (ih hup.2 hs ht)
      -- the directory lies above what is found, or is it
      by_cases heq : l ++ [segment] = x.location
      · rw [heq] at hfound ⊢
        rw [ht, ← hs, hfound]
      · refine find?_of_prefix ht ?_ heq
        rw [hrest.location]
        exact prefix_foldl_step hup.2 _

/-- **What a path that never goes up shows now, it showed before**, if its place is the same. -/
theorem pathExists_of_kept (hkeep : t.KeepsDirectories s) (hup : ".." ∉ p.segments)
    (hsame : s.find? (t.locationOf p) = t.find? (t.locationOf p)) (h : s.pathExists p = true) :
    t.pathExists p = true := by
  obtain ⟨e, he⟩ := pathExists_iff.mp h
  obtain ⟨x, hx, hs, hadmits⟩ := look_eq_ok_iff.mp he
  obtain ⟨husable, hfollows⟩ := target_eq_ok_iff.mp hx
  have hlocation : x.location = t.locationOf p := by
    rw [location_of_target hx, hkeep.locationOf]
  have ht : t.find? x.location = some e := by rw [hlocation, ← hsame, ← hlocation, hs]
  rw [hkeep.home] at hfollows
  have htarget : t.target p = .ok x :=
    target_eq_ok_iff.mpr ⟨husable, hfollows.of_kept hup hs ht⟩
  exact pathExists_iff.mpr ⟨e, look_eq_ok_iff.mpr ⟨x, htarget, ht, hadmits⟩⟩

theorem exists_locationOf_join (hname : Path.IsName name) :
    ∃ l, t.locationOf (d.join ⟨[name]⟩) = l ++ [name] := by
  unfold Path.join
  rw [Path.isAbsolute_singleton, if_neg Bool.false_ne_true]
  split
  · exact Path.locationFrom_concat _ _ hname
  · exact Path.locationFrom_concat _ _ hname

/-- In an existing directory, the way to a name is open. -/
theorem target_join (hd : t.isDirectory d = true) (hname : Path.IsName name)
    (husable : (d.join ⟨[name]⟩).Usable) :
    t.target (d.join ⟨[name]⟩) = .ok (.entry (t.locationOf d ++ [name]) false) := by
  obtain ⟨y, hy, hentered⟩ := isDirectory_iff.mp hd
  obtain ⟨hdusable, hfollows⟩ := target_eq_ok_iff.mp hy
  have habs := Path.isAbsolute_singleton name
  have hne : [name] ≠ [] := List.cons_ne_nil _ _
  refine target_eq_ok_iff.mpr ⟨husable, ?_⟩
  rw [Path.start_join hdusable.2.2 hne habs, ← location_of_target hy]
  exact follows_of_follow ((follow_join d hne habs _).trans
    (hfollows.append hentered (hname.leadsOn List.mem_cons_self) (.last _ hname rfl)).follow)

/-- What is found in a directory that existed before was found before, if its place is the same. -/
theorem pathExists_join_of_kept (hkeep : t.KeepsDirectories s) (hd : t.isDirectory d = true)
    (hname : Path.IsName name)
    (hsame : s.find? (t.locationOf (d.join ⟨[name]⟩)) = t.find? (t.locationOf (d.join ⟨[name]⟩)))
    (h : s.pathExists (d.join ⟨[name]⟩) = true) : t.pathExists (d.join ⟨[name]⟩) = true := by
  obtain ⟨e, he⟩ := pathExists_iff.mp h
  obtain ⟨x, hx, hs, hadmits⟩ := look_eq_ok_iff.mp he
  have ht := target_join hd hname (target_eq_ok_iff.mp hx).1
  obtain rfl := Except.ok.inj (hx.symm.trans (target_of_keepsDirectories hkeep ht))
  have hl : t.locationOf d ++ [name] = t.locationOf (d.join ⟨[name]⟩) := location_of_target ht
  refine pathExists_iff.mpr ⟨e, look_eq_ok_iff.mpr ⟨_, ht, ?_, hadmits⟩⟩
  rw [← hs, Target.location, hl, hsame]

end FileTree

end BenchGate
