import BenchGate.Files.Tree
import Mathlib.Data.List.Infix

/-!
# What a tree has above and below a location

A tree is closed: above everything that exists there are directories only. Read the other way round,
nothing exists below a file, so removing a file removes that one entry and nothing else.
-/

namespace BenchGate.FileTree

variable {t : FileTree} {l k : Location} {e : Entry} {content : ByteArray}

theorem mem_entries_of_find? (hl : l ≠ []) (h : t.find? l = some e) : (l, e) ∈ t.entries := by
  unfold find? entryAt at h
  rw [if_neg hl] at h
  obtain ⟨before, after, hsplit, -⟩ := List.lookup_eq_some_iff.mp h
  rw [hsplit]
  exact List.mem_append_right _ List.mem_cons_self

theorem find?_dropLast (h : t.find? l = some e) : t.find? l.dropLast = some .directory := by
  by_cases hl : l = []
  · subst hl
    exact t.find?_nil
  · exact (t.closed (l, e) (mem_entries_of_find? hl h)).2

theorem find?_workingDirectory (t : FileTree) :
    t.find? t.workingDirectory = some .directory := t.working

/-- Above an entry there are only directories. -/
theorem find?_of_prefix (h : t.find? l = some e) (hk : k <+: l) (hne : k ≠ l) :
    t.find? k = some .directory := by
  induction l using List.reverseRecOn generalizing e with
  | nil => exact absurd (List.prefix_nil.mp hk) hne
  | append_singleton l name ih =>
      have habove : t.find? l = some .directory := by
        have := find?_dropLast h
        rwa [List.dropLast_concat] at this
      rcases List.prefix_concat_iff.mp hk with heq | hpre
      · exact absurd heq hne
      · by_cases hkl : k = l
        · rw [hkl, habove]
        · exact ih habove hpre hkl

/-- Nothing exists below a file. -/
theorem find?_below_file (h : t.find? l = some (.file content)) (hk : l <+: k) (hne : k ≠ l) :
    t.find? k = none := by
  cases hf : t.find? k with
  | none => rfl
  | some e =>
      have hdir := find?_of_prefix hf hk (Ne.symm hne)
      rw [h] at hdir
      cases hdir

theorem ne_nil_of_find?_file (h : t.find? l = some (.file content)) : l ≠ [] := by
  intro hl
  subst hl
  rw [find?_nil] at h
  cases h

theorem workingDirectory_outside_file (h : t.find? l = some (.file content)) :
    isWithin l t.workingDirectory = false := by
  rw [Bool.eq_false_iff]
  intro hin
  have hpre := List.isPrefixOf_iff_prefix.mp hin
  by_cases heq : t.workingDirectory = l
  · rw [← heq, find?_workingDirectory] at h
    cases h
  · have := find?_below_file h hpre heq
    rw [find?_workingDirectory] at this
    cases this

/-- **Removing a file removes one entry.** -/
theorem find?_remove_file (h : t.find? l = some (.file content)) (k : Location) :
    (t.remove l).find? k = if k = l then none else t.find? k := by
  cases hin : isWithin l k with
  | false =>
      have hne : k ≠ l := by
        intro heq
        subst heq
        have : isWithin k k = true := List.isPrefixOf_iff_prefix.mpr (List.prefix_refl k)
        rw [this] at hin
        cases hin
      rw [if_neg hne, find?_remove_of_outside t hin]
  | true =>
      -- everything within a file is the file itself
      have hpre := List.isPrefixOf_iff_prefix.mp hin
      have hk : k ≠ [] := by
        intro hnil
        subst hnil
        exact ne_nil_of_find?_file h (List.prefix_nil.mp hpre)
      have hgone : (t.remove l).find? k = none := by
        have hkeep := lookup_filter (fun m => !isWithin l m) t.entries k
        rw [hin] at hkeep
        unfold remove find? entryAt
        rw [dif_pos (workingDirectory_outside_file h), if_neg hk]
        exact hkeep
      rw [hgone]
      by_cases heq : k = l
      · rw [if_pos heq]
      · rw [if_neg heq, find?_below_file h hpre heq]

@[simp] theorem workingDirectory_insert (t : FileTree) (l : Location) (e : Entry) :
    (t.insert l e).workingDirectory = t.workingDirectory := by
  unfold insert
  split <;> rfl

@[simp] theorem workingDirectory_remove (t : FileTree) (l : Location) :
    (t.remove l).workingDirectory = t.workingDirectory := by
  unfold remove
  split <;> rfl

end BenchGate.FileTree
