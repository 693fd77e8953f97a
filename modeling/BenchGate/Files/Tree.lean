import BenchGate.Files.Path

/-!
# File trees

A file tree says what exists: for every location, the names on the way from the root, a directory,
a file with its bytes, or nothing. The type keeps what makes it a tree:

* no location is listed twice, and the root, which always exists, is not listed;
* the location above a listed one is a directory;
* the working directory, where relative paths start, exists.

Every change is one insertion or removal, and a change that would break the tree does nothing. What
exists after a change is said by one lemma on `find?` each.
-/

namespace BenchGate

/-- The names on the way from the root to an entry. -/
abbrev Location := List String

-- Contents are compared as `ByteArray` itself does it, whatever other instance is known.
attribute [local instance (high)] ByteArray.instDecidableEq

/-- What exists at a location. -/
inductive Entry where
  | directory
  | file (content : ByteArray)
  deriving DecidableEq

/-- What a list of entries has at a location; the root is a directory in any case. -/
def entryAt (entries : List (Location × Entry)) (l : Location) : Option Entry :=
  if l = [] then some .directory else entries.lookup l

/-- The directories and files that exist, and the directory where relative paths start. -/
structure FileTree where
  /-- What exists, apart from the root. -/
  entries : List (Location × Entry)
  workingDirectory : Location
  unique : (entries.map Prod.fst).Nodup
  closed : ∀ p ∈ entries, p.1 ≠ [] ∧ entryAt entries p.1.dropLast = some .directory
  working : entryAt entries workingDirectory = some .directory

namespace FileTree

/-- What exists at a location. -/
def find? (t : FileTree) (l : Location) : Option Entry := entryAt t.entries l

/-- The tree with nothing but the root in it. -/
def empty : FileTree where
  entries := []
  workingDirectory := []
  unique := List.nodup_nil
  closed := by simp
  working := rfl

/-! ## Lists of entries -/

/-- Selecting entries by their location leaves the look-up of a selected location alone. -/
theorem lookup_filter (keep : Location → Bool) (entries : List (Location × Entry)) (k : Location) :
    (entries.filter (fun p => keep p.1)).lookup k = if keep k then entries.lookup k else none := by
  induction entries with
  | nil => simp
  | cons p rest ih =>
    obtain ⟨m, e⟩ := p
    rw [List.filter_cons, List.lookup_cons]
    by_cases hk : k == m
    · have hkm : k = m := by simpa using hk
      subst hkm
      cases hkeep : keep k <;> simp [hkeep, ih]
    · have hb : (k == m) = false := by simpa using hk
      cases keep m <;> simp [hb, ih, List.lookup_cons]

/-- Puts an entry in the place of what the list has at that location. -/
def replaced (entries : List (Location × Entry)) (l : Location) (e : Entry) :
    List (Location × Entry) :=
  (l, e) :: entries.filter (fun p => p.1 != l)

theorem entryAt_replaced (entries : List (Location × Entry)) {l : Location} (hl : l ≠ [])
    (e : Entry) (k : Location) :
    entryAt (replaced entries l e) k = if k = l then some e else entryAt entries k := by
  unfold entryAt replaced
  by_cases hk : k = l
  · subst hk
    simp [hl]
  · have hb : (k == l) = false := by simpa using hk
    have hkeep := lookup_filter (fun m => m != l) entries k
    simp [List.lookup_cons, hb, hk, hkeep]

theorem nodup_replaced {entries : List (Location × Entry)} (l : Location) (e : Entry)
    (h : (entries.map Prod.fst).Nodup) : ((replaced entries l e).map Prod.fst).Nodup := by
  unfold replaced
  rw [List.map_cons, List.nodup_cons]
  refine ⟨by simp, ?_⟩
  exact h.sublist (List.filter_sublist.map Prod.fst)

theorem lookup_eq_some_of_mem {entries : List (Location × Entry)}
    (h : (entries.map Prod.fst).Nodup) {p : Location × Entry} (hp : p ∈ entries) :
    entries.lookup p.1 = some p.2 := by
  induction entries with
  | nil => cases hp
  | cons q rest ih =>
    rw [List.map_cons, List.nodup_cons] at h
    rcases List.mem_cons.mp hp with rfl | hmem
    · rw [show p = (p.1, p.2) from rfl, List.lookup_cons, beq_self_eq_true]
    · have hin : p.1 ∈ rest.map Prod.fst := List.mem_map_of_mem hmem
      have hne : (p.1 == q.1) = false := by
        have : p.1 ≠ q.1 := fun heq => h.1 (heq ▸ hin)
        simpa using this
      rw [show q = (q.1, q.2) from rfl, List.lookup_cons, hne]
      exact ih h.2 hmem

/-- A listed location is what `find?` finds there. -/
theorem find?_of_mem (t : FileTree) {p : Location × Entry} (hp : p ∈ t.entries) :
    t.find? p.1 = some p.2 := by
  unfold find? entryAt
  rw [if_neg (t.closed p hp).1]
  exact lookup_eq_some_of_mem t.unique hp

/-! ## Changes -/

/--
A new entry, or new content in the place of a file. Nothing happens at the root, below anything but
a directory, in the place of a directory, or where a directory would replace a file.
-/
def insert (t : FileTree) (l : Location) (e : Entry) : FileTree :=
  if h : l ≠ [] ∧ t.find? l.dropLast = some .directory ∧ t.find? l ≠ some .directory ∧
      (e = .directory → t.find? l = none) then
    { entries := replaced t.entries l e
      workingDirectory := t.workingDirectory
      unique := nodup_replaced l e t.unique
      closed := by
        have above : ∀ k, entryAt t.entries k = some .directory →
            entryAt (replaced t.entries l e) k = some .directory := by
          intro k hk
          rw [entryAt_replaced _ h.1]
          split
          · next hkl => exact absurd (hkl ▸ hk) h.2.2.1
          · exact hk
        intro p hp
        rcases List.mem_cons.mp hp with rfl | hmem
        · exact ⟨h.1, above _ h.2.1⟩
        · have := t.closed p (List.mem_filter.mp hmem).1
          exact ⟨this.1, above _ this.2⟩
      working := by
        rw [entryAt_replaced _ h.1]
        split
        · next hw => exact absurd (hw ▸ t.working) h.2.2.1
        · exact t.working }
  else t

/-- Whether a location is another one or lies below it. -/
def isWithin (l k : Location) : Bool := l.isPrefixOf k

theorem entryAt_outside {entries : List (Location × Entry)} {l k : Location}
    (hk : isWithin l k = false) :
    entryAt (entries.filter fun p => !isWithin l p.1) k = entryAt entries k := by
  have hkeep := lookup_filter (fun m => !isWithin l m) entries k
  simp [entryAt, hkeep, hk]

theorem isWithin_dropLast {l k : Location} (h : isWithin l k = false) :
    isWithin l k.dropLast = false := by
  unfold isWithin at h ⊢
  rw [Bool.eq_false_iff] at h ⊢
  intro hin
  rw [ne_eq, List.isPrefixOf_iff_prefix] at h
  exact h ((List.isPrefixOf_iff_prefix.mp hin).trans (List.dropLast_prefix k))

/-- Removes an entry with everything below it, unless the working directory is among that. -/
def remove (t : FileTree) (l : Location) : FileTree :=
  if h : isWithin l t.workingDirectory = false then
    { entries := t.entries.filter fun p => !isWithin l p.1
      workingDirectory := t.workingDirectory
      unique := t.unique.sublist (List.filter_sublist.map Prod.fst)
      closed := by
        intro p hp
        obtain ⟨hmem, hout⟩ := List.mem_filter.mp hp
        have hclosed := t.closed p hmem
        rw [entryAt_outside (isWithin_dropLast (by simpa using hout))]
        exact hclosed
      working := by
        rw [entryAt_outside h]
        exact t.working }
  else t

/-- Makes every directory on the way to a location that does not exist yet. -/
def insertDirectories (t : FileTree) (l : Location) : FileTree :=
  (List.range l.length).foldl (fun t n => t.insert (l.take (n + 1)) .directory) t

/-- Starts relative paths in another directory, if that exists. -/
def enter (t : FileTree) (l : Location) : FileTree :=
  if h : t.find? l = some .directory then { t with workingDirectory := l, working := h } else t

/-- What exists in a directory: every listed location with one name more. -/
def children (t : FileTree) (l : Location) : List (Location × Entry) :=
  t.entries.filter fun p => p.1.dropLast = l ∧ p.1 ≠ []

/-- What exists anywhere below a directory. -/
def descendants (t : FileTree) (l : Location) : List (Location × Entry) :=
  t.entries.filter fun p => isWithin l p.1 ∧ p.1 ≠ l

/-! ## What exists after a change -/

theorem find?_nil (t : FileTree) : t.find? [] = some .directory := by
  simp [find?, entryAt]

/-- An insertion that goes through changes the one location. -/
theorem find?_insert {t : FileTree} {l : Location} {e : Entry} (hl : l ≠ [])
    (habove : t.find? l.dropLast = some .directory) (hfree : t.find? l ≠ some .directory)
    (hnew : e = .directory → t.find? l = none) (k : Location) :
    (t.insert l e).find? k = if k = l then some e else t.find? k := by
  unfold insert
  rw [dif_pos ⟨hl, habove, hfree, hnew⟩]
  exact entryAt_replaced t.entries hl e k

/-- No insertion changes another location. -/
theorem find?_insert_of_ne (t : FileTree) {l k : Location} (e : Entry) (hk : k ≠ l) :
    (t.insert l e).find? k = t.find? k := by
  by_cases h : l ≠ [] ∧ t.find? l.dropLast = some .directory ∧ t.find? l ≠ some .directory ∧
      (e = .directory → t.find? l = none)
  · rw [find?_insert h.1 h.2.1 h.2.2.1 h.2.2.2, if_neg hk]
  · unfold insert
    rw [dif_neg h]

/-- A removal changes nothing outside. -/
theorem find?_remove_of_outside (t : FileTree) {l k : Location} (hk : isWithin l k = false) :
    (t.remove l).find? k = t.find? k := by
  unfold remove
  split
  · exact entryAt_outside hk
  · rfl

end FileTree

end BenchGate
