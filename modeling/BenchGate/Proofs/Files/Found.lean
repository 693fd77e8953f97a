import BenchGate.Proofs.Files.Searching

/-!
# What a search finds

A search only ever adds to the path from which it starts, so whatever it finds has the front of that
path. And whatever is found by a pattern for record files ends in a name that `*.json` fits.
-/

namespace BenchGate

open FileTree

variable {t : FileTree} {p q r : Path} {names : List String} {name : String}

/-! ## Below a path -/

namespace Path

/-- The path `q` leads to a name below `p`. -/
def LeadsTo (p q : Path) (name : String) : Prop :=
  IsName name ∧ ∃ more, q = ⟨p.front ++ (more ++ [name])⟩

theorem LeadsTo.front_eq (h : p.LeadsTo q name) : q.front = q.segments := by
  obtain ⟨hname, more, rfl⟩ := h
  rw [← List.append_assoc]
  exact front_concat _ hname

theorem LeadsTo.of_prefix (hfront : p.front <+: q.front) (h : q.LeadsTo r name) :
    p.LeadsTo r name := by
  obtain ⟨hname, more, rfl⟩ := h
  obtain ⟨between, hbetween⟩ := hfront
  refine ⟨hname, between ++ more, ?_⟩
  rw [← hbetween, List.append_assoc, List.append_assoc]

theorem LeadsTo.prefix_front (h : p.LeadsTo q name) : p.front <+: q.front := by
  rw [h.front_eq]
  obtain ⟨-, more, rfl⟩ := h
  exact List.prefix_append _ _

theorem front_prefix_within (p : Path) (segment : String) :
    p.front <+: (within p [segment]).front := by
  rw [within_eq (isAbsolute_singleton segment)]
  exact front_prefix_front (by simp)

theorem front_prefix_join (p : Path) (segment : String) :
    p.front <+: (p.join ⟨[segment]⟩).front := by
  by_cases hhere : p.components = [.here]
  · rw [front, if_pos hhere]
    exact List.nil_prefix
  · have hjoin : within p [segment] = p.join ⟨[segment]⟩ := if_neg hhere
    rw [← hjoin]
    exact p.front_prefix_within segment

end Path

namespace FileTree

theorem leadsTo_within (hnames : Location.Nameable names) (hlast : names.getLast? = some name) :
    p.LeadsTo (within p names) name := by
  obtain ⟨more, rfl⟩ := List.getLast?_eq_some_iff.mp hlast
  refine ⟨(hnames name List.mem_concat_self).isName, more, ?_⟩
  rw [Path.within_eq (Path.isAbsolute_of_isName (isName_of_nameable hnames))]

theorem leadsTo_of_mem_listDirectory {entry : Path × String} (h : t.WellNamed)
    (hentry : entry ∈ t.listDirectory p) : p.LeadsTo entry.1 entry.2 := by
  unfold FileTree.listDirectory at hentry
  split at hentry
  · obtain ⟨below, hbelow, hentry⟩ := List.mem_filterMap.mp hentry
    rw [List.mem_mergeSort, List.mem_map] at hbelow
    obtain ⟨listed, hlisted, rfl⟩ := hbelow
    obtain ⟨name, hlast, rfl⟩ := Option.map_eq_some_iff.mp hentry
    refine leadsTo_within (fun other hother => ?_) rfl
    rw [List.mem_singleton.mp hother]
    exact h listed (List.mem_filter.mp hlisted).1 name (List.mem_of_getLast? hlast)
  · cases hentry

theorem leadsTo_of_mem_listBelow {entry : Path × String} (h : t.WellNamed)
    (hentry : entry ∈ t.listBelow p) : p.LeadsTo entry.1 entry.2 := by
  unfold FileTree.listBelow at hentry
  split at hentry
  · rename_i l _
    obtain ⟨names, hnames, hentry⟩ := List.mem_filterMap.mp hentry
    rw [List.mem_mergeSort, List.mem_map] at hnames
    obtain ⟨listed, hlisted, rfl⟩ := hnames
    rw [Option.ite_none_right_eq_some] at hentry
    obtain ⟨name, hlast, rfl⟩ := Option.map_eq_some_iff.mp hentry.2
    refine leadsTo_within (fun other hother => ?_) hlast
    exact h listed (List.mem_filter.mp hlisted).1 other (List.mem_of_mem_drop hother)
  · cases hentry

/-! ## Searching for record files -/

/-- The search ends in looking for record files, or has ended. -/
def EndsInRecords (components : List GlobComponent) : Prop :=
  ∀ c, components.getLast? = some c → c = .wild GlobToken.ofRecordFiles

theorem EndsInRecords.tail {c : GlobComponent} {rest : List GlobComponent}
    (h : EndsInRecords (c :: rest)) : EndsInRecords rest := by
  intro last hlast
  cases rest with
  | nil => cases hlast
  | cons next rest => exact h last hlast

theorem EndsInRecords.cases {c : GlobComponent} {rest : List GlobComponent}
    (h : EndsInRecords (c :: rest)) : c = .wild GlobToken.ofRecordFiles ∨ rest ≠ [] := by
  cases rest with
  | nil => exact .inl (h c rfl)
  | cons next rest => exact .inr (List.cons_ne_nil _ _)

theorem endsInRecords_collapse (front : List GlobComponent) :
    GlobComponent.collapse (front ++ [.wild GlobToken.ofRecordFiles]) ≠ [] ∧
      EndsInRecords (GlobComponent.collapse (front ++ [.wild GlobToken.ofRecordFiles])) := by
  have hlast : (front ++ [GlobComponent.wild GlobToken.ofRecordFiles]).getLast? =
      some (.wild GlobToken.ofRecordFiles) := List.getLast?_concat
  have hcollapsed := GlobComponent.getLast?_collapse (by simp) hlast
  refine ⟨fun hnil => ?_, fun c hc => Option.some.inj (hc.symm.trans hcollapsed)⟩
  rw [hnil] at hcollapsed
  cases hcollapsed

/-- **What a search for record files finds** is below its start and ends in a name that `*.json`
fits. -/
theorem leadsTo_of_mem_reach (h : t.WellNamed) : ∀ (components : List GlobComponent) (p : Path),
    components ≠ [] → EndsInRecords components → q ∈ t.reach components p →
    ∃ name, p.LeadsTo q name ∧ ".json".toList <:+ name.toList
  | [], p, hne, hends, hq => absurd rfl hne
  | .literal segment :: rest, p, _, hends, hq => by
      rcases hends.cases with hwild | hrest
      · cases hwild
      · rw [FileTree.reach] at hq
        have hnext : q ∈ t.reach rest (within p [segment]) := by
          split at hq
          · split at hq
            · exact hq
            · cases hq
          · split at hq
            · exact hq
            · cases hq
        obtain ⟨name, hname, hjson⟩ := leadsTo_of_mem_reach h rest _ hrest hends.tail hnext
        exact ⟨name, hname.of_prefix (p.front_prefix_within segment), hjson⟩
  | .wild tokens :: rest, p, _, hends, hq => by
      rw [FileTree.reach] at hq
      split at hq
      · by_cases hrest : rest = []
        · subst hrest
          cases hends _ rfl
          -- `*.json` stands for no special name
          rcases List.mem_append.mp hq with hspecial | hnamed
          · cases hspecial
          · obtain ⟨entry, hentry, hq⟩ := List.mem_flatMap.mp hnamed
            obtain ⟨hlisted, hfits⟩ := List.mem_filter.mp hentry
            rw [List.mem_singleton.mp hq]
            exact ⟨entry.2, leadsTo_of_mem_listDirectory h hlisted,
              (GlobToken.fits_ofRecordFiles _).mp hfits⟩
        · rcases List.mem_append.mp hq with hspecial | hnamed
          · obtain ⟨segment, -, hq⟩ := List.mem_flatMap.mp hspecial
            obtain ⟨name, hname, hjson⟩ := leadsTo_of_mem_reach h rest _ hrest hends.tail hq
            exact ⟨name, hname.of_prefix (p.front_prefix_join segment), hjson⟩
          · obtain ⟨entry, hentry, hq⟩ := List.mem_flatMap.mp hnamed
            have hlisted := leadsTo_of_mem_listDirectory h (List.mem_filter.mp hentry).1
            obtain ⟨name, hname, hjson⟩ := leadsTo_of_mem_reach h rest _ hrest hends.tail hq
            exact ⟨name, hname.of_prefix hlisted.prefix_front, hjson⟩
      · cases hq
  | [.directories], p, _, hends, hq => by cases hends _ rfl
  | .directories :: component :: rest, p, _, hends, hq => by
      rw [FileTree.reach] at hq
      obtain ⟨entry, hentry, hfound⟩ := List.mem_flatMap.mp hq
      obtain ⟨hmem, hfits⟩ := List.mem_filter.mp hentry
      have hlisted := leadsTo_of_mem_listBelow h hmem
      by_cases hrest : rest = []
      · subst hrest
        cases hends _ rfl
        rw [List.mem_singleton.mp hfound]
        exact ⟨entry.2, hlisted, (GlobToken.fits_ofRecordFiles _).mp hfits⟩
      · obtain ⟨name, hname, hjson⟩ := leadsTo_of_mem_reach h rest _ hrest hends.tail.tail hfound
        exact ⟨name, hname.of_prefix hlisted.prefix_front, hjson⟩

end FileTree

end BenchGate
