import BenchGate.Proofs.Files.Growth

/-!
# Trees of the same shape

Two trees have the same shape if the same things exist in them and the same ones are directories;
only what is in files may differ. A search never looks into files, so it finds the same paths in
both, whatever the pattern.
-/

namespace BenchGate

namespace FileTree

variable {t s : FileTree} {p : Path} {l : Location}

/-- Trees that differ in the contents of files only: each has grown into the other. -/
def SameShape (t s : FileTree) : Prop := t.GrowsInto s ∧ s.GrowsInto t

theorem SameShape.wellNamed (h : t.SameShape s) (ht : t.WellNamed) : s.WellNamed := by
  refine wellNamed_iff.mpr fun l e he => ?_
  obtain ⟨e', he'⟩ := Option.ne_none_iff_exists'.mp (h.2.keepsEntries l (by simp [he]))
  exact ht.nameable he'

/-- Another content for a file leaves the shape as it is. -/
theorem sameShape_insert {old : ByteArray} (hl : t.find? l = some (.file old)) (new : ByteArray) :
    t.SameShape (t.insert l (.file new)) := by
  have hfind := find?_insert (ne_nil_of_find?_file hl) (find?_dropLast hl) (by simp [hl])
    (fun hdirectory : Entry.file new = .directory => by cases hdirectory)
  have hhome := workingDirectory_insert t l (.file new)
  refine ⟨.of_find? ⟨hhome, fun {k} hk => ?_⟩ fun k => ?_,
    .of_find? ⟨hhome.symm, fun {k} hk => ?_⟩ fun k => ?_⟩
  · rw [hfind, if_neg, hk]
    rintro rfl
    rw [hl] at hk
    cases hk
  · rw [hfind]
    split
    · exact .inr (by simp)
    · exact .inl rfl
  · rw [hfind] at hk
    split at hk
    · cases hk
    · exact hk
  · rw [hfind]
    split
    · rename_i heq
      exact .inr (by simp [heq, hl])
    · exact .inl rfl

/-! ## Looking and listing -/

theorem SameShape.isDirectory (h : t.SameShape s) (p : Path) :
    s.isDirectory p = t.isDirectory p := by
  rw [Bool.eq_iff_iff]
  exact ⟨isDirectory_of_keepsDirectories h.2.keeps, isDirectory_of_keepsDirectories h.1.keeps⟩

theorem SameShape.pathExists (h : t.SameShape s) (p : Path) : s.pathExists p = t.pathExists p := by
  rw [Bool.eq_iff_iff]
  exact ⟨h.2.pathExists, h.1.pathExists⟩

theorem SameShape.listDirectory (h : t.SameShape s) (ht : t.WellNamed)
    (hp : t.isDirectory p = true) : s.listDirectory p = t.listDirectory p := by
  have hs := h.wellNamed ht
  have hp' : s.isDirectory p = true := (h.isDirectory p).trans hp
  refine List.Sublist.antisymm ?_ ?_
  · rw [h.2.listDirectory ht hp']
    exact List.filter_sublist
  · rw [h.1.listDirectory hs hp]
    exact List.filter_sublist

theorem SameShape.listBelow (h : t.SameShape s) (ht : t.WellNamed)
    (hp : t.isDirectory p = true) : s.listBelow p = t.listBelow p := by
  have hs := h.wellNamed ht
  have hp' : s.isDirectory p = true := (h.isDirectory p).trans hp
  refine List.Sublist.antisymm ?_ ?_
  · rw [h.2.listBelow hs ht hp']
    exact List.filter_sublist
  · rw [h.1.listBelow ht hs hp]
    exact List.filter_sublist

/-! ## Searching -/

/-- **Trees of the same shape are searched alike.** -/
theorem SameShape.reach (h : t.SameShape s) (ht : t.WellNamed) :
    ∀ (components : List GlobComponent) (p : Path), s.reach components p = t.reach components p
  | [], p => rfl
  | .literal segment :: rest, p => by
      rw [FileTree.reach, FileTree.reach, h.isDirectory, h.pathExists, h.reach ht rest]
  | .wild tokens :: rest, p => by
      rw [FileTree.reach, FileTree.reach, h.isDirectory]
      split
      · rename_i hp
        simp only [h.listDirectory ht hp, h.reach ht rest]
      · rfl
  | [.directories], p => by
      rw [FileTree.reach, FileTree.reach, funext h.isDirectory]
      cases hp : t.isDirectory p with
      | true => rw [h.listBelow ht hp]
      | false =>
          rw [listBelow_of_not_isDirectory hp,
            listBelow_of_not_isDirectory ((h.isDirectory p).trans hp)]
  | .directories :: component :: rest, p => by
      rw [reach_directories, reach_directories, h.isDirectory]
      split
      · rename_i hp
        simp only [h.listBelow ht hp, h.reach ht rest]
      · rfl

theorem SameShape.glob (h : t.SameShape s) (ht : t.WellNamed) (pattern : String) :
    s.glob pattern = t.glob pattern := by
  unfold FileTree.glob
  simp only [h.reach ht]

end FileTree

end BenchGate
