import BenchGate.Proofs.Files.Steps

/-!
# Names that can be looked up

A tree as such can list any texts as names. The names that a file system holds are those at which a
path leads into a directory: not empty, `.` or `..`, without the character that ends a path, and not
too long. No path leads a step to any other name, so a tree with such names only keeps them.
-/

namespace BenchGate

/-- A name that a path can lead to. -/
structure Path.Nameable (name : String) : Prop where
  isName : Path.IsName name
  nulFree : name.toList.contains '\x00' = false
  fits : name.utf8ByteSize ≤ longestName

instance (name : String) : Decidable (Path.Nameable name) :=
  decidable_of_iff (Path.IsName name ∧ name.toList.contains '\x00' = false ∧
      name.utf8ByteSize ≤ longestName)
    ⟨fun h => ⟨h.1, h.2.1, h.2.2⟩, fun h => ⟨h.isName, h.nulFree, h.fits⟩⟩

/-- Every name on the way to a location can be looked up. -/
def Location.Nameable (l : Location) : Prop := ∀ name ∈ l, Path.Nameable name

/-- Every name in a tree can be looked up. -/
def FileTree.WellNamed (t : FileTree) : Prop := ∀ p ∈ t.entries, Location.Nameable p.1

instance (l : Location) : Decidable l.Nameable := inferInstanceAs (Decidable (∀ name ∈ l, _))

instance (t : FileTree) : Decidable t.WellNamed := inferInstanceAs (Decidable (∀ p ∈ t.entries, _))

namespace FileTree

variable {t s : FileTree} {p : Path} {l k : Location} {e : Entry} {slash : Bool}

theorem wellNamed_iff : t.WellNamed ↔ ∀ l e, t.find? l = some e → l.Nameable := by
  constructor
  · intro h l e hl
    by_cases hnil : l = []
    · intro name hname
      rw [hnil] at hname
      cases hname
    · exact h (l, e) (mem_entries_of_find? hnil hl)
  · intro h p hp
    exact h p.1 p.2 (t.find?_of_mem hp)

theorem WellNamed.nameable (h : t.WellNamed) (hl : t.find? l = some e) : l.Nameable :=
  wellNamed_iff.mp h l e hl

/-- A target's name is a segment of the path. -/
theorem Follows.exists_name {segments : List String}
    (h : t.Follows l segments (.entry k slash)) :
    ∃ above, ∃ name ∈ segments, Path.IsName name ∧ k = above ++ [name] := by
  generalize hx : Target.entry k slash = x at h
  induction h with
  | done l => cases hx
  | stay _ _ ih =>
      obtain ⟨above, name, hmem, hname⟩ := ih hx
      exact ⟨above, name, List.mem_cons_of_mem _ hmem, hname⟩
  | up _ ih =>
      obtain ⟨above, name, hmem, hname⟩ := ih hx
      exact ⟨above, name, List.mem_cons_of_mem _ hmem, hname⟩
  | last l hname _ =>
      cases hx
      exact ⟨l, _, List.mem_cons_self, hname, rfl⟩
  | into _ _ _ _ ih =>
      obtain ⟨above, name, hmem, hname⟩ := ih hx
      exact ⟨above, name, List.mem_cons_of_mem _ hmem, hname⟩

/-- The name at which a path ends can be looked up, and so can those above it. -/
theorem WellNamed.nameable_of_target (h : t.WellNamed) (ht : t.target p = .ok (.entry k slash))
    (hfits : k.NameFits) : k.Nameable := by
  obtain ⟨husable, hfollows⟩ := target_eq_ok_iff.mp ht
  obtain ⟨above, name, hmem, hname, rfl⟩ := hfollows.exists_name
  have habove := (holds_of_target ht).2
  rw [List.dropLast_concat] at habove
  have hfree : name.toList.contains '\x00' = false := by
    rw [Bool.eq_false_iff]
    intro hnul
    exact Bool.eq_false_iff.mp husable.1 (List.any_eq_true.mpr ⟨name, hmem, hnul⟩)
  rw [Location.NameFits, List.getLastD_concat] at hfits
  intro other hother
  rcases List.mem_append.mp hother with hin | hlast
  · exact h.nameable habove other hin
  · rw [List.mem_singleton.mp hlast]
    exact ⟨hname, hfree, hfits⟩

theorem WellNamed.nameable_of_reaches (h : t.WellNamed) (hr : t.Reaches p) :
    (t.locationOf p).Nameable := h.nameable_of_target hr.target hr.nameFits

/-- **A step makes no names but such that can be looked up.** -/
theorem WellNamed.run {g : FileStep} (h : t.WellNamed) (hrun : g.run t = .ok s) : s.WellNamed := by
  rw [wellNamed_iff]
  intro l e hl
  cases g with
  | ensureDirectory path =>
      rcases FileStep.run_ensureDirectory hrun with hmade | ⟨-, rfl⟩
      · rw [find?_makeDirectory hmade] at hl
        split at hl
        · rename_i heq
          obtain ⟨hroom, -⟩ := makeDirectory_eq_ok hmade
          obtain ⟨slash, ht⟩ := hroom.target
          rw [heq]
          exact h.nameable_of_target ht hroom.nameFits
        · exact h.nameable hl
      · exact h.nameable hl
  | write path content =>
      rw [find?_writeFile hrun] at hl
      split at hl
      · rename_i heq
        rw [heq]
        exact h.nameable_of_reaches (writeFile_eq_ok_iff.mp hrun).1
      · exact h.nameable hl
  | move source destination =>
      obtain ⟨content, -, hfind⟩ := find?_moveFile hrun
      rw [hfind] at hl
      split at hl
      · rename_i heq
        rw [heq]
        exact h.nameable_of_reaches (moveFile_eq_ok_iff.mp hrun).2.1
      · split at hl
        · cases hl
        · exact h.nameable hl

end FileTree

open FileTree in
theorem FileStep.Shows.wellNamed {t s : FileTree} {g : FileStep} (hshow : g.Shows t s)
    (h : t.WellNamed) : s.WellNamed := by
  rcases hshow with hrun | hmid
  · exact h.run hrun
  · obtain ⟨path, content, part, -, hrun⟩ := exists_write_of_midway hmid
    exact h.run hrun

/-- In every tree that can be seen while steps run, all names can be looked up. -/
theorem FileTree.WellNamed.of_mem_statesOf {ε : Type} {t s : FileTree} {gs : List (Guarded ε)}
    (h : t.WellNamed) (hs : s ∈ statesOf t gs) : s.WellNamed :=
  statesOf_induction (P := FileTree.WellNamed) h (fun _ _ _ _ hu hshow => hshow.wellNamed hu) s hs

end BenchGate
