import BenchGate.Proofs.Files.Order
import BenchGate.Proofs.Files.Within
import Mathlib.Data.List.Nodup

/-!
# What lies below a directory

What lies below a directory is a list of names from there, in the order of a walk
(`FileTree.below`). The order is total and no two entries have the same names, so the list is
determined by what `find?` finds: it does not matter in which order a tree keeps its entries.

A walk lists exactly these entries, apart from those in a directory whose path is too long. Each of
them is then found under its own path, unless that path is too long.
-/

namespace BenchGate

variable {t s : FileTree} {p : Path} {l : Location} {names a b : List String} {e : Entry}

/-! ## Order -/

theorem Location.le_append (l a b : Location) :
    Location.le (l ++ a) (l ++ b) = Location.le a b := by
  rw [← Path.componentsLe_names, List.map_append, List.map_append, Path.componentsLe_append,
    Path.componentsLe_names]

namespace Path

/-- **Below one directory, paths come in the order of their names.** -/
theorem le_within (hp : p.isEmpty = false) (ha : ∀ name ∈ a, IsName name) (hane : a ≠ [])
    (hb : ∀ name ∈ b, IsName name) (hbne : b ≠ []) :
    (FileTree.within p a).le (FileTree.within p b) = Location.le a b := by
  unfold le
  rw [within_eq (isAbsolute_of_isName ha), within_eq (isAbsolute_of_isName hb),
    components_front hp ha hane, components_front hp hb hbne, componentsLe_append,
    componentsLe_names]

end Path

/-! ## Entries below a location -/

namespace FileTree

/-- What exists below a location: names from there, in the order of a walk, and what they name. -/
def below (t : FileTree) (l : Location) : List (Location × Entry) :=
  ((t.descendants l).map fun p => (p.1.drop l.length, p.2)).mergeSort
    fun x y => Location.le x.1 y.1

theorem mem_below {x : Location × Entry} :
    x ∈ t.below l ↔ x.1 ≠ [] ∧ t.find? (l ++ x.1) = some x.2 := by
  rw [below, List.mem_mergeSort, List.mem_map]
  constructor
  · rintro ⟨p, hp, rfl⟩
    obtain ⟨hmem, hbelow⟩ := List.mem_filter.mp hp
    obtain ⟨hin, hne⟩ := of_decide_eq_true hbelow
    obtain ⟨names, hnames⟩ := List.isPrefixOf_iff_prefix.mp hin
    have hdrop : p.1.drop l.length = names := by rw [← hnames, List.drop_left]
    dsimp only
    rw [hdrop, hnames]
    refine ⟨?_, t.find?_of_mem hmem⟩
    rintro rfl
    rw [List.append_nil] at hnames
    exact hne hnames.symm
  · rintro ⟨hne, hfind⟩
    have hmem := mem_entries_of_find? (by simp [hne]) hfind
    refine ⟨(l ++ x.1, x.2), List.mem_filter.mpr ⟨hmem, decide_eq_true ⟨?_, ?_⟩⟩, ?_⟩
    · exact List.isPrefixOf_iff_prefix.mpr (List.prefix_append _ _)
    · simpa using hne
    · dsimp only
      rw [List.drop_left]

theorem below_sorted (t : FileTree) (l : Location) :
    (t.below l).Pairwise fun x y => Location.le x.1 y.1 = true :=
  Location.sorted_mergeSort Prod.fst _

theorem mem_names_below :
    names ∈ (t.below l).map Prod.fst ↔ names ≠ [] ∧ t.find? (l ++ names) ≠ none := by
  rw [List.mem_map]
  constructor
  · rintro ⟨x, hx, rfl⟩
    obtain ⟨hne, hfind⟩ := mem_below.mp hx
    exact ⟨hne, by simp [hfind]⟩
  · rintro ⟨hne, hthere⟩
    obtain ⟨e, he⟩ := Option.ne_none_iff_exists'.mp hthere
    exact ⟨(names, e), mem_below.mpr ⟨hne, he⟩, rfl⟩

theorem nodup_names_below (t : FileTree) (l : Location) : ((t.below l).map Prod.fst).Nodup := by
  have hkeys : ((t.descendants l).map fun p => p.1.drop l.length).Nodup := by
    have hnodup : (t.descendants l).Nodup := (List.Nodup.of_map _ t.unique).filter _
    refine hnodup.map_on fun p hp q hq heq => ?_
    obtain ⟨hpmem, hpbelow⟩ := List.mem_filter.mp hp
    obtain ⟨hqmem, hqbelow⟩ := List.mem_filter.mp hq
    obtain ⟨pnames, hpnames⟩ := List.isPrefixOf_iff_prefix.mp (of_decide_eq_true hpbelow).1
    obtain ⟨qnames, hqnames⟩ := List.isPrefixOf_iff_prefix.mp (of_decide_eq_true hqbelow).1
    rw [← hpnames, ← hqnames, List.drop_left, List.drop_left] at heq
    refine List.inj_on_of_nodup_map t.unique hpmem hqmem ?_
    rw [← hpnames, ← hqnames, heq]
  have hperm := (List.mergeSort_perm ((t.descendants l).map fun p => (p.1.drop l.length, p.2))
    fun x y => Location.le x.1 y.1).map Prod.fst
  rw [List.map_map] at hperm
  exact hperm.nodup_iff.mpr hkeys

theorem nodup_below (t : FileTree) (l : Location) : (t.below l).Nodup :=
  List.Nodup.of_map _ (t.nodup_names_below l)

/-- Two trees with the same entries of a kind list them alike. -/
theorem filter_below_congr {keep : Location × Entry → Bool}
    (h : ∀ x, keep x = true → x.1 ≠ [] →
      (s.find? (l ++ x.1) = some x.2 ↔ t.find? (l ++ x.1) = some x.2)) :
    (s.below l).filter keep = (t.below l).filter keep := by
  have hmem : ∀ x, x ∈ (s.below l).filter keep ↔ x ∈ (t.below l).filter keep := by
    intro x
    rw [List.mem_filter, List.mem_filter, mem_below, mem_below]
    constructor
    · rintro ⟨⟨hne, hfind⟩, hkeep⟩
      exact ⟨⟨hne, (h x hkeep hne).mp hfind⟩, hkeep⟩
    · rintro ⟨⟨hne, hfind⟩, hkeep⟩
      exact ⟨⟨hne, (h x hkeep hne).mpr hfind⟩, hkeep⟩
  refine Location.eq_of_sorted Prod.fst ((s.below_sorted l).filter _) ((t.below_sorted l).filter _)
    (fun x hx y hy hkey => ?_) ?_
  · have hx' := (mem_below.mp (List.mem_filter.mp ((hmem x).mp hx)).1).2
    have hy' := (mem_below.mp (List.mem_filter.mp hy).1).2
    rw [← hkey, hx'] at hy'
    exact Prod.ext hkey (Option.some.inj hy')
  · exact (List.perm_ext_iff_of_nodup ((s.nodup_below l).filter _)
      ((t.nodup_below l).filter _)).mpr hmem

/-! ## Walking below a directory -/

theorem locate_of_isDirectory (hp : t.isDirectory p = true) :
    t.locate p = .ok (t.locationOf p, .directory) := by
  obtain ⟨x, hx, hentered⟩ := isDirectory_iff.mp hp
  have hlocation := location_of_target hx
  unfold locate
  rw [hx, ok_bind]
  cases x with
  | directory l =>
      rw [← hlocation]
      rfl
  | entry l slash =>
      dsimp only
      rw [lookUp_eq_ok_iff.mpr hentered, ← hlocation]
      rfl

/-- Names below an existing directory lead to what they name. -/
theorem follows_of_nameable (hnames : Location.Nameable names) (hne : names ≠ [])
    (hfind : t.find? (l ++ names) = some e) : t.Follows l names (.entry (l ++ names) false) := by
  induction names generalizing l with
  | nil => exact absurd rfl hne
  | cons name rest ih =>
      have hname := hnames name List.mem_cons_self
      cases rest with
      | nil => exact .last l hname.isName rfl
      | cons next rest =>
          have hrest : Location.Nameable (next :: rest) :=
            fun other hother => hnames other (List.mem_cons_of_mem _ hother)
          have hsplit : l ++ name :: next :: rest = (l ++ [name]) ++ next :: rest := by simp
          have hdirectory : t.find? (l ++ [name]) = some .directory := by
            refine find?_of_prefix hfind ?_ (by simp)
            rw [hsplit]
            exact List.prefix_append _ _
          have hfits : Location.NameFits (l ++ [name]) := by
            rw [Location.NameFits, List.getLastD_concat]
            exact hname.fits
          have hnext := hrest next List.mem_cons_self
          have hleadsOn : (next :: rest).all (· = "") = false :=
            hnext.isName.leadsOn List.mem_cons_self
          rw [hsplit] at hfind ⊢
          exact .into hname.isName hleadsOn (lookUp_eq_ok_iff.mpr ⟨hfits, hdirectory⟩)
            (ih hrest (by simp) hfind)

theorem isName_of_nameable (hnames : Location.Nameable names) :
    ∀ name ∈ names, Path.IsName name := fun name hname => (hnames name hname).isName

theorem nulFree_of_nameable (hnames : Location.Nameable names) :
    names.any (fun name => name.toList.contains '\x00') = false := by
  rw [Bool.eq_false_iff]
  intro hany
  obtain ⟨name, hname, hnul⟩ := List.any_eq_true.mp hany
  rw [(hnames name hname).nulFree] at hnul
  cases hnul

/-- Below a directory, a path is free of the character that ends a path, and it is not empty. -/
theorem within_of_nameable (hp : p.Usable) (hnames : Location.Nameable names) (hne : names ≠ []) :
    (within p names).segments.any (fun name => name.toList.contains '\x00') = false ∧
      (within p names).isEmpty = false := by
  rw [Path.within_eq (Path.isAbsolute_of_isName (isName_of_nameable hnames))]
  constructor
  · dsimp only
    rw [List.any_append, nulFree_of_nameable hnames, Bool.or_false]
    exact List.any_eq_false.mpr fun segment hsegment =>
      List.any_eq_false.mp hp.1 segment (Path.mem_segments_of_mem_front hsegment)
  · have hlast := isName_of_nameable hnames _ (List.getLast_mem hne)
    rw [Path.isEmpty, decide_eq_false_iff_not]
    dsimp only
    intro heq
    have hblank : (p.front ++ names).getLast? = some "" := by rw [heq]; rfl
    rw [List.getLast?_append, List.getLast?_eq_some_getLast hne, Option.some_or,
      Option.some.injEq] at hblank
    exact hlast.ne_blank hblank

/-- **An entry below a directory is found under its own path**, if that is not too long. -/
theorem look_within (hp : t.isDirectory p = true) (hnames : Location.Nameable names)
    (hne : names ≠ []) (hfind : t.find? (t.locationOf p ++ names) = some e)
    (hfits : (within p names).hasFittingLength = true) : t.look (within p names) = .ok e := by
  have hfree := within_of_nameable (usable_of_isDirectory hp) hnames hne
  have hlast := hnames _ (List.getLast_mem hne)
  have htarget := target_within hp (Path.isAbsolute_of_isName (isName_of_nameable hnames))
    (hlast.isName.leadsOn (List.getLast_mem hne)) ⟨hfree.1, hfits, hfree.2⟩
    (follows_of_nameable hnames hne hfind)
  have hnameFits : Location.NameFits (t.locationOf p ++ names) := by
    rw [Location.NameFits, List.getLastD_eq_getLast?, List.getLast?_append,
      List.getLast?_eq_some_getLast hne]
    exact hlast.fits
  unfold look locate
  rw [htarget, ok_bind]
  dsimp only
  rw [lookUp_eq_ok_iff.mpr ⟨hnameFits, hfind⟩]
  cases e <;> rfl

theorem locationOf_within (hp : t.isDirectory p = true) (hnames : Location.Nameable names)
    (hne : names ≠ []) : t.locationOf (within p names) = t.locationOf p ++ names := by
  have hname := isName_of_nameable hnames
  rw [locationOf, Path.locationFrom_within (usable_of_isDirectory hp).2.2
    (Path.isAbsolute_of_isName hname) hne, Path.foldl_step_of_isName hname]
  rfl

theorem pathExists_of_long (hlong : p.hasFittingLength = false) : t.pathExists p = false := by
  have htarget : ∃ cause, t.target p = .error cause := by
    unfold target
    rw [hlong]
    split
    · exact ⟨_, rfl⟩
    · exact ⟨_, rfl⟩
  obtain ⟨cause, hcause⟩ := htarget
  unfold pathExists look locate
  rw [hcause]
  rfl

end FileTree

namespace Path

/-- The directory in which the path ends does not have too long a path itself. -/
def IsListed (q : Path) : Prop := (Path.mk q.segments.dropLast).hasFittingLength = true

instance (q : Path) : Decidable q.IsListed := inferInstanceAs (Decidable (_ = true))

theorem isListed_of_hasFittingLength (h : p.hasFittingLength = true) : p.IsListed := by
  unfold IsListed
  by_cases hnil : p.segments.dropLast = []
  · rw [hnil]
    decide
  · rw [hasFittingLength_iff hnil]
    have hne : p.segments ≠ [] := by
      intro heq
      rw [heq] at hnil
      exact hnil rfl
    exact Nat.le_trans (span_dropLast_le _) ((hasFittingLength_iff hne).mp h)

theorem isListed_within_iff (hp : p.Usable) (hnames : ∀ name ∈ names, IsName name)
    (hne : names ≠ []) :
    (FileTree.within p names).IsListed ↔
      names.length ≤ 1 ∨ (FileTree.within p names.dropLast).hasFittingLength = true := by
  have hdropLast : ∀ name ∈ names.dropLast, IsName name :=
    fun name hname => hnames name (List.mem_of_mem_dropLast hname)
  rw [IsListed, within_eq (isAbsolute_of_isName hnames), within_eq (isAbsolute_of_isName hdropLast)]
  dsimp only
  rw [List.dropLast_append_of_ne_nil hne]
  constructor
  · exact .inr
  · rintro (hone | hfits)
    · -- in the directory itself, only the front is left
      have hnil : names.dropLast = [] := by
        rw [← List.length_eq_zero_iff, List.length_dropLast]
        omega
      rw [hnil, List.append_nil]
      by_cases hfront : p.front = []
      · rw [hfront]
        decide
      · rw [hasFittingLength_iff hfront]
        have hsegments : p.segments ≠ [] := by
          intro heq
          obtain ⟨segment, hsegment⟩ := List.exists_mem_of_ne_nil _ hfront
          have hmem := mem_segments_of_mem_front hsegment
          rw [heq] at hmem
          cases hmem
        exact Nat.le_trans (span_front_le p) ((hasFittingLength_iff hsegments).mp hp.2.1)
    · exact hfits

end Path

namespace FileTree

theorem WellNamed.nameable_of_mem_below {x : Location × Entry} (h : t.WellNamed)
    (hx : x ∈ t.below l) : Location.Nameable x.1 := by
  intro name hname
  exact h.nameable (mem_below.mp hx).2 name (List.mem_append_right _ hname)

/-- **A walk lists what lies below a directory**, apart from what is in a directory whose path is
too long. -/
theorem listBelow_eq (hp : t.isDirectory p = true) (h : t.WellNamed) :
    t.listBelow p =
      ((t.below (t.locationOf p)).filter fun x => (within p x.1).IsListed).map
        fun x => (within p x.1, x.1.getLastD "") := by
  have hwalk : ((t.descendants (t.locationOf p)).map
        fun entry => entry.1.drop (t.locationOf p).length).mergeSort Location.le =
      (t.below (t.locationOf p)).map Prod.fst := by
    refine Location.eq_of_sorted id (Location.sorted_mergeSort id _) ?_ (fun _ _ _ _ heq => heq) ?_
    · exact List.pairwise_map.mpr (t.below_sorted _)
    · refine (List.mergeSort_perm _ _).trans ?_
      have hperm := ((List.mergeSort_perm ((t.descendants (t.locationOf p)).map
        fun q => (q.1.drop (t.locationOf p).length, q.2))
        fun x y => Location.le x.1 y.1).map Prod.fst).symm
      rwa [List.map_map] at hperm
  unfold listBelow
  rw [locate_of_isDirectory hp]
  dsimp only
  rw [hwalk, List.filterMap_map, ← List.filterMap_eq_map, ← List.filterMap_eq_filter,
    List.filterMap_filterMap]
  refine List.filterMap_congr fun x hx => ?_
  have hnames := h.nameable_of_mem_below hx
  have hne := (mem_below.mp hx).1
  have hiff := Path.isListed_within_iff (usable_of_isDirectory hp) (isName_of_nameable hnames) hne
  have hlast : x.1.getLast? = some (x.1.getLastD "") := by
    rw [List.getLastD_eq_getLast?, List.getLast?_eq_some_getLast hne]
    rfl
  rw [Function.comp_apply, hlast]
  by_cases hlisted : (within p x.1).IsListed
  · rw [if_pos (hiff.mp hlisted)]
    simp [hlisted]
  · rw [if_neg (fun hshort => hlisted (hiff.mpr hshort))]
    simp [Option.guard, hlisted]

theorem mem_children {k : Location} :
    k ∈ (t.children l).map Prod.fst ↔ ∃ name, k = l ++ [name] ∧ t.find? k ≠ none := by
  rw [List.mem_map]
  constructor
  · rintro ⟨entry, hentry, rfl⟩
    obtain ⟨hmem, hkeep⟩ := List.mem_filter.mp hentry
    obtain ⟨hdrop, hne⟩ := of_decide_eq_true hkeep
    refine ⟨entry.1.getLast hne, ?_, by simp [t.find?_of_mem hmem]⟩
    rw [← hdrop, List.dropLast_append_getLast]
  · rintro ⟨name, rfl, hthere⟩
    obtain ⟨e, he⟩ := Option.ne_none_iff_exists'.mp hthere
    refine ⟨(l ++ [name], e), List.mem_filter.mpr ⟨mem_entries_of_find? (by simp) he, ?_⟩, rfl⟩
    simp

/-- **A listing shows what lies in a directory itself.** -/
theorem listDirectory_eq (hp : t.isDirectory p = true) :
    t.listDirectory p =
      ((t.below (t.locationOf p)).filter fun x => x.1.length = 1).map
        fun x => (within p x.1, x.1.getLastD "") := by
  have hchildren : ((t.children (t.locationOf p)).map Prod.fst).mergeSort Location.le =
      ((t.below (t.locationOf p)).filter fun x => x.1.length = 1).map
        fun x => t.locationOf p ++ x.1 := by
    refine Location.eq_of_sorted id (Location.sorted_mergeSort id _) ?_ (fun _ _ _ _ heq => heq) ?_
    · refine List.pairwise_map.mpr (((t.below_sorted _).filter _).imp ?_)
      intro x y hle
      rwa [id, id, Location.le_append]
    · have hnodup : (((t.below (t.locationOf p)).filter fun x => x.1.length = 1).map
          fun x => t.locationOf p ++ x.1).Nodup := by
        have hnames := (t.nodup_names_below (t.locationOf p)).sublist
          ((List.filter_sublist (p := fun x => x.1.length = 1)).map Prod.fst)
        have hmapped := hnames.map (f := (t.locationOf p ++ ·)) fun _ _ => List.append_cancel_left
        rwa [List.map_map] at hmapped
      refine (List.mergeSort_perm _ _).trans ((List.perm_ext_iff_of_nodup
        (t.unique.sublist (List.filter_sublist.map Prod.fst)) hnodup).mpr fun k => ?_)
      rw [← children, mem_children, List.mem_map]
      constructor
      · rintro ⟨name, rfl, hthere⟩
        obtain ⟨e, he⟩ := Option.ne_none_iff_exists'.mp hthere
        refine ⟨([name], e), List.mem_filter.mpr ⟨mem_below.mpr ⟨by simp, he⟩, rfl⟩, rfl⟩
      · rintro ⟨x, hx, rfl⟩
        obtain ⟨hmem, hone⟩ := List.mem_filter.mp hx
        obtain ⟨name, hname⟩ := List.length_eq_one_iff.mp (of_decide_eq_true hone)
        exact ⟨name, by rw [hname], by simp [(mem_below.mp hmem).2]⟩
  unfold listDirectory
  rw [locate_of_isDirectory hp]
  dsimp only
  rw [hchildren, List.filterMap_map, ← List.filterMap_eq_map]
  refine List.filterMap_congr fun x hx => ?_
  obtain ⟨name, hname⟩ := List.length_eq_one_iff.mp (of_decide_eq_true (List.mem_filter.mp hx).2)
  rw [Function.comp_apply, Function.comp_apply, hname, List.getLast?_concat]
  rfl

end FileTree

end BenchGate
