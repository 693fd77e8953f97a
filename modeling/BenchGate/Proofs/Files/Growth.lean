import BenchGate.Proofs.Files.Again
import BenchGate.Proofs.Files.Found

/-!
# Trees that have grown

A tree has grown into another one if what existed still exists and directories still are
directories. Making directories and writing files does that. A search in the grown tree finds what
it found before, in the same order, and besides only paths that led nowhere before.
-/

namespace BenchGate

open FileTree FileStep

variable {t s u : FileTree} {p q : Path} {l : Location} {e : Entry} {names : List String}
  {name : String}

namespace FileTree

/-- What existed still exists, and directories still are directories. -/
structure GrowsInto (t s : FileTree) : Prop where
  keeps : t.KeepsDirectories s
  keepsEntries : ∀ l, t.find? l ≠ none → s.find? l ≠ none

theorem GrowsInto.refl (t : FileTree) : t.GrowsInto t := ⟨.refl t, fun _ h => h⟩

theorem GrowsInto.trans (h : t.GrowsInto s) (h' : s.GrowsInto u) : t.GrowsInto u :=
  ⟨h.keeps.trans h'.keeps, fun l hl => h'.keepsEntries l (h.keepsEntries l hl)⟩

theorem GrowsInto.of_find? (hkeep : t.KeepsDirectories s)
    (h : ∀ l, s.find? l = t.find? l ∨ s.find? l ≠ none) : t.GrowsInto s := by
  refine ⟨hkeep, fun l hl => ?_⟩
  rcases h l with hsame | hthere
  · rwa [hsame]
  · exact hthere

end FileTree

/-! ## Steps -/

theorem growsInto_of_run {g : FileStep} (hmove : ∀ source destination, g ≠ .move source destination)
    (h : g.run t = .ok s) : t.GrowsInto s := by
  refine .of_find? (keepsDirectories_run h) fun l => ?_
  cases g with
  | ensureDirectory path =>
      rcases run_ensureDirectory h with hmade | ⟨-, rfl⟩
      · rw [find?_makeDirectory hmade]
        split
        · exact .inr (by simp)
        · exact .inl rfl
      · exact .inl rfl
  | write path content =>
      rw [find?_writeFile h]
      split
      · exact .inr (by simp)
      · exact .inl rfl
  | move source destination => exact absurd rfl (hmove source destination)

/-- **Where nothing is moved, a tree grows**, also if the steps are stopped. -/
theorem growsInto_of_runSteps {ε : Type} {gs : List (Guarded ε)}
    (hmove : ∀ g ∈ gs, ∀ source destination, g.step ≠ .move source destination) :
    t.GrowsInto (runSteps t gs).1 := by
  induction gs generalizing t with
  | nil => exact .refl t
  | cons g rest ih =>
      cases hrun : g.step.run t with
      | error cause =>
          rw [runSteps_cons_error hrun]
          exact .refl t
      | ok after =>
          rw [runSteps_cons_ok hrun]
          exact (growsInto_of_run (hmove g List.mem_cons_self) hrun).trans
            (ih fun other hother => hmove other (List.mem_cons_of_mem _ hother))

namespace FileTree

/-! ## Looking at paths -/

/-- Where a tree that keeps directories has the same entry, it shows the same. -/
theorem look_of_keepsDirectories (hkeep : t.KeepsDirectories s)
    (hfind : s.find? (t.locationOf p) = t.find? (t.locationOf p)) (h : t.look p = .ok e) :
    s.look p = .ok e := by
  obtain ⟨x, ht, he, hadmits⟩ := look_eq_ok_iff.mp h
  refine look_eq_ok_iff.mpr ⟨x, target_of_keepsDirectories hkeep ht, ?_, hadmits⟩
  rw [location_of_target ht] at he ⊢
  rw [hfind, he]

theorem GrowsInto.pathExists (h : t.GrowsInto s) (hp : t.pathExists p = true) :
    s.pathExists p = true := by
  obtain ⟨e, he⟩ := pathExists_iff.mp hp
  obtain ⟨x, ht, hfind, hadmits⟩ := look_eq_ok_iff.mp he
  obtain ⟨e', he'⟩ := Option.ne_none_iff_exists'.mp (h.keepsEntries x.location (by simp [hfind]))
  refine pathExists_iff.mpr ⟨e', look_eq_ok_iff.mpr
    ⟨x, target_of_keepsDirectories h.keeps ht, he', ?_⟩⟩
  cases x with
  | directory l => trivial
  | entry l slash =>
      refine ⟨hadmits.1, fun hslash => ?_⟩
      rw [hadmits.2 hslash] at hfind
      exact Option.some.inj (he'.symm.trans (h.keeps.find? hfind))

theorem usable_of_pathExists (h : t.pathExists p = true) : p.Usable := by
  obtain ⟨e, he⟩ := pathExists_iff.mp h
  obtain ⟨x, ht, -, -⟩ := look_eq_ok_iff.mp he
  exact (target_eq_ok_iff.mp ht).1

/-- **Where a path below leads somewhere, there is a directory.** -/
theorem isDirectory_of_pathExists_below (hp : p.front = [] → p.Usable) (hq : p.LeadsTo q name)
    (h : t.pathExists q = true) : t.isDirectory p = true := by
  obtain ⟨hname, more, rfl⟩ := hq
  obtain ⟨e, he⟩ := pathExists_iff.mp h
  obtain ⟨x, ht, -, -⟩ := look_eq_ok_iff.mp he
  obtain ⟨husable, hfollows⟩ := target_eq_ok_iff.mp ht
  have hne : more ++ [name] ≠ [] := by simp
  by_cases hfront : p.front = []
  · have hhere := (Follows.done (t := t) (p.start t.workingDirectory)).of_stays
      (Path.stays_of_front_eq_nil hfront)
    rw [List.append_nil] at hhere
    exact isDirectory_iff.mpr ⟨_, target_eq_ok_iff.mpr ⟨hp hfront, hhere⟩, trivial⟩
  · have hpusable := husable.of_front hfront hne
    rw [Path.start_front hpusable.2.2 hne fun hnil => absurd hnil hfront] at hfollows
    have hway := follows_of_follow ((follow_front p hne _).symm.trans hfollows.follow)
    obtain ⟨y, hy, hentered⟩ := hway.front (hname.leadsOn List.mem_concat_self)
    exact isDirectory_iff.mpr ⟨y, target_eq_ok_iff.mpr ⟨hpusable, hy⟩, hentered⟩

theorem isDirectory_of_mem_reach {components : List GlobComponent} (hs : s.WellNamed)
    (hne : components ≠ []) (hends : EndsInRecords components) (hp : p.front = [] → p.Usable)
    (hq : q ∈ s.reach components p) (h : t.pathExists q = true) : t.isDirectory p = true := by
  obtain ⟨name, hname, -⟩ := leadsTo_of_mem_reach hs components p hne hends hq
  exact isDirectory_of_pathExists_below hp hname h

/-- What leads somewhere was searched from what leads somewhere. -/
theorem pathExists_of_mem_reach {components : List GlobComponent} (hs : s.WellNamed)
    (hends : EndsInRecords components) (hp : p.front = [] → p.Usable)
    (hq : q ∈ s.reach components p) (h : t.pathExists q = true) : t.pathExists p = true := by
  by_cases hne : components = []
  · subst hne
    rwa [List.mem_singleton.mp hq] at h
  · exact pathExists_of_isDirectory (isDirectory_of_mem_reach hs hne hends hp hq h)

/-! ## Listing -/

/-- Whether there is something at the location to which a path leads. -/
def knows (t : FileTree) (p : Path) : Bool := (t.find? (t.locationOf p)).isSome

theorem knows_of_pathExists (h : t.pathExists p = true) : t.knows p = true := by
  obtain ⟨e, he⟩ := pathExists_iff.mp h
  obtain ⟨x, ht, hfind, -⟩ := look_eq_ok_iff.mp he
  rw [location_of_target ht] at hfind
  rw [knows, hfind]
  rfl

/-- Of what lies below a directory now, what is known already lay there before. -/
theorem GrowsInto.listed (h : t.GrowsInto s) (hs : s.WellNamed) (hp : t.isDirectory p = true)
    (keep : Location → Bool) :
    (((t.below (t.locationOf p)).filter fun x => keep x.1).map
        fun x => (within p x.1, x.1.getLastD "")) =
      (((s.below (t.locationOf p)).filter fun x => keep x.1).map
        fun x => (within p x.1, x.1.getLastD "")).filter fun entry => t.knows entry.1 := by
  have hnames : (t.below (t.locationOf p)).map Prod.fst =
      ((s.below (t.locationOf p)).map Prod.fst).filter
        fun names => (t.find? (t.locationOf p ++ names)).isSome := by
    refine Location.eq_of_sorted id ?_ ?_ (fun _ _ _ _ heq => heq) ?_
    · exact List.pairwise_map.mpr (t.below_sorted _)
    · exact (List.pairwise_map.mpr (s.below_sorted _)).filter _
    · refine (List.perm_ext_iff_of_nodup (t.nodup_names_below _)
        ((s.nodup_names_below _).filter _)).mpr fun names => ?_
      rw [List.mem_filter, mem_names_below, mem_names_below, Option.isSome_iff_ne_none]
      constructor
      · rintro ⟨hne, hthere⟩
        exact ⟨⟨hne, h.keepsEntries _ hthere⟩, hthere⟩
      · rintro ⟨⟨hne, -⟩, hthere⟩
        exact ⟨hne, hthere⟩
  have hkeys : ∀ xs : List (Location × Entry),
      (xs.filter fun x => keep x.1).map (fun x => (within p x.1, x.1.getLastD "")) =
        ((xs.map Prod.fst).filter keep).map fun names => (within p names, names.getLastD "") := by
    intro xs
    rw [List.filter_map, List.map_map]
    rfl
  rw [hkeys, hkeys, hnames]
  generalize hall : (s.below (t.locationOf p)).map Prod.fst = all
  rw [List.filter_map, List.filter_filter, List.filter_filter]
  refine congrArg _ (List.filter_congr fun names hmem => ?_)
  rw [← hall] at hmem
  obtain ⟨x, hx, rfl⟩ := List.mem_map.mp hmem
  have hnameable := hs.nameable_of_mem_below hx
  rw [Function.comp_apply, knows, locationOf_within hp hnameable (mem_below.mp hx).1, Bool.and_comm]

theorem GrowsInto.listBelow (h : t.GrowsInto s) (ht : t.WellNamed) (hs : s.WellNamed)
    (hp : t.isDirectory p = true) :
    t.listBelow p = (s.listBelow p).filter fun entry => t.knows entry.1 := by
  have hp' := isDirectory_of_keepsDirectories h.keeps hp
  rw [listBelow_eq hp ht, listBelow_eq hp' hs, h.keeps.locationOf]
  exact h.listed hs hp fun names => (within p names).IsListed

theorem GrowsInto.listDirectory (h : t.GrowsInto s) (hs : s.WellNamed)
    (hp : t.isDirectory p = true) :
    t.listDirectory p = (s.listDirectory p).filter fun entry => t.knows entry.1 := by
  have hp' := isDirectory_of_keepsDirectories h.keeps hp
  rw [listDirectory_eq hp, listDirectory_eq hp', h.keeps.locationOf]
  exact h.listed hs hp fun names => names.length = 1

/-! ## Searching -/

theorem flatMap_filter_of_nil {α β : Type} {keep : α → Bool} {f : α → List β} {xs : List α}
    (h : ∀ x ∈ xs, keep x = false → f x = []) : (xs.filter keep).flatMap f = xs.flatMap f := by
  induction xs with
  | nil => rfl
  | cons x rest ih =>
      have hrest := ih fun y hy => h y (List.mem_cons_of_mem _ hy)
      rw [List.filter_cons, List.flatMap_cons]
      split
      · rw [List.flatMap_cons, hrest]
      · rename_i hdrop
        rw [hrest, h x List.mem_cons_self (by simpa using hdrop), List.nil_append]

/-- What is kept of a list that is there under one condition, and of one under a stronger one. -/
theorem filter_ite {α : Type} {keep : α → Bool} {a b : Bool} {xs ys : List α}
    (hab : a = true → b = true) (hnew : b = true → ∀ y ∈ ys, keep y = true → a = true)
    (hsame : a = true → ys.filter keep = xs.filter keep) :
    (if b then ys else []).filter keep = (if a then xs else []).filter keep := by
  cases ha : a with
  | true => rw [hab ha, if_pos rfl, if_pos rfl, hsame ha]
  | false =>
      rw [if_neg Bool.false_ne_true, List.filter_nil]
      split
      · rename_i hb
        refine List.filter_eq_nil_iff.mpr fun y hy hkeep => ?_
        rw [hnew hb y hy hkeep] at ha
        cases ha
      · rfl

/-- From entries that were not known before, a search leads nowhere that existed. -/
theorem flatMap_known {components : List GlobComponent} {listed : List (Path × String)}
    {fits : Path × String → Bool} (ht : t.WellNamed) (hends : EndsInRecords components)
    (hlisted : ∀ entry ∈ listed, p.LeadsTo entry.1 entry.2) :
    (((listed.filter fun entry => t.knows entry.1).filter fits).flatMap fun entry =>
        (t.reach components entry.1).filter t.pathExists) =
      (listed.filter fits).flatMap fun entry =>
        (t.reach components entry.1).filter t.pathExists := by
  rw [List.filter_comm]
  refine flatMap_filter_of_nil fun entry hentry hunknown => ?_
  refine List.filter_eq_nil_iff.mpr fun q hq hexists => ?_
  have hleads := hlisted entry (List.mem_filter.mp hentry).1
  have hfront : entry.1.front ≠ [] := by
    rw [hleads.front_eq]
    obtain ⟨-, more, heq⟩ := hleads
    simp [heq]
  have hthere := pathExists_of_mem_reach ht hends (fun hnil => absurd hnil hfront) hq hexists
  rw [knows_of_pathExists hthere] at hunknown
  cases hunknown

theorem listBelow_of_not_isDirectory (hp : t.isDirectory p = false) : t.listBelow p = [] := by
  unfold FileTree.listBelow
  split
  · rename_i hlocate
    unfold isDirectory FileTree.look at hp
    rw [hlocate] at hp
    cases hp
  · rfl

theorem reach_directories (t : FileTree) (c : GlobComponent) (rest : List GlobComponent)
    (p : Path) :
    t.reach (.directories :: c :: rest) p =
      if t.isDirectory p then
        ((t.listBelow p).filter fun entry => c.fits entry.2).flatMap fun entry =>
          t.reach rest entry.1
      else [] := by
  rw [FileTree.reach]
  split
  · rfl
  · rename_i hp
    rw [listBelow_of_not_isDirectory (by simpa using hp)]
    rfl

/-- **A search for record files finds what it found before**, and besides only paths that led
nowhere before. -/
theorem GrowsInto.reach (h : t.GrowsInto s) (ht : t.WellNamed) (hs : s.WellNamed) :
    ∀ (components : List GlobComponent) (p : Path), EndsInRecords components →
      (s.reach components p).filter t.pathExists = (t.reach components p).filter t.pathExists
  | [], p, hends => rfl
  | .literal segment :: rest, p, hends => by
      have hrest := h.reach ht hs rest (within p [segment]) hends.tail
      rw [FileTree.reach, FileTree.reach]
      by_cases hspecial : segment = "." ∨ segment = ".."
      · rw [if_pos hspecial, if_pos hspecial]
        refine filter_ite (isDirectory_of_keepsDirectories h.keeps) (fun hp q hq hexists => ?_)
          fun _ => hrest
        refine isDirectory_of_mem_reach hs (List.cons_ne_nil (.literal segment) rest) hends
          (fun _ => usable_of_isDirectory hp) ?_ hexists
        rwa [FileTree.reach, if_pos hspecial, if_pos hp]
      · rw [if_neg hspecial, if_neg hspecial]
        refine filter_ite h.pathExists (fun hnext q hq hexists => ?_) fun _ => hrest
        exact pathExists_of_mem_reach hs hends.tail (fun _ => usable_of_pathExists hnext) hq hexists
  | .wild tokens :: rest, p, hends => by
      rw [FileTree.reach, FileTree.reach]
      refine filter_ite (isDirectory_of_keepsDirectories h.keeps) (fun hp q hq hexists => ?_)
        fun hp => ?_
      · refine isDirectory_of_mem_reach hs (List.cons_ne_nil (.wild tokens) rest) hends
          (fun _ => usable_of_isDirectory hp) ?_ hexists
        rwa [FileTree.reach, if_pos hp]
      · rw [List.filter_append, List.filter_append, List.filter_flatMap, List.filter_flatMap,
          List.filter_flatMap, List.filter_flatMap]
        simp only [h.reach ht hs rest _ hends.tail]
        rw [h.listDirectory hs hp,
          flatMap_known ht hends.tail fun entry => leadsTo_of_mem_listDirectory hs]
  | [.directories], p, hends => by cases hends _ rfl
  | .directories :: component :: rest, p, hends => by
      rw [reach_directories, reach_directories]
      refine filter_ite (isDirectory_of_keepsDirectories h.keeps) (fun hp q hq hexists => ?_)
        fun hp => ?_
      · refine isDirectory_of_mem_reach hs (List.cons_ne_nil .directories (component :: rest)) hends
          (fun _ => usable_of_isDirectory hp) ?_ hexists
        rwa [reach_directories, if_pos hp]
      · rw [List.filter_flatMap, List.filter_flatMap]
        simp only [h.reach ht hs rest _ hends.tail.tail]
        rw [h.listBelow ht hs hp,
          flatMap_known ht hends.tail.tail fun entry => leadsTo_of_mem_listBelow hs]

end FileTree

end BenchGate
