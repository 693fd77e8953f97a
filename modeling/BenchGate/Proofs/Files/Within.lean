import BenchGate.Files.Discovery
import BenchGate.Proofs.Files.Directories
import BenchGate.Proofs.Files.Names

/-!
# Paths below a directory

The path to an entry below a directory begins with what the path of the directory has to say
(`Path.front`): nothing for the working directory itself, and otherwise its segments without a slash
at the end. Everything about such a path follows from that: its components, its place in the order,
its length and the location it leads to. The one way to fail is that it becomes too long.
-/

namespace BenchGate

open FileTree

variable {home l : Location} {p : Path} {names segments : List String} {name segment : String}

namespace Path

/-- What the paths below a directory begin with. -/
def front (p : Path) : List String :=
  if p.components = [.here] then []
  else if p.segments.getLast? = some "" then p.segments.dropLast
  else p.segments

theorem isAbsolute_cons (first : String) (rest : List String) :
    (Path.mk (first :: rest)).isAbsolute = (decide (first = "") && !rest.isEmpty) := by
  rw [Bool.eq_iff_iff, isAbsolute_iff]
  cases rest with
  | nil => simp
  | cons second rest => simp

theorem IsName.ne_blank (h : IsName name) : name ≠ "" := by
  rintro rfl
  exact absurd h.1 (by decide)

theorem IsName.ne_here (h : IsName name) : name ≠ "." := by
  rintro rfl
  exact absurd h.1 (by decide)

/-- A way with a name in it leads on. -/
theorem IsName.leadsOn (h : IsName name) (hmem : name ∈ names) :
    names.all (· = "") = false := by
  rw [Bool.eq_false_iff]
  intro hall
  exact h.ne_blank (of_decide_eq_true (List.all_eq_true.mp hall name hmem))

theorem isAbsolute_of_isName (hnames : ∀ name ∈ names, IsName name) :
    (Path.mk names).isAbsolute = false := by
  cases names with
  | nil => rfl
  | cons first rest =>
      have hfirst := (hnames first List.mem_cons_self).ne_blank
      rw [isAbsolute_cons, decide_eq_false hfirst, Bool.false_and]

/-! ## Components -/

theorem componentOf?_of_isName (h : IsName name) : componentOf? name = some (.name name) := by
  unfold componentOf?
  rw [h.1, if_neg Bool.false_ne_true, if_neg h.2]

theorem componentOf?_eq_none_iff : componentOf? segment = none ↔ stays segment = true := by
  unfold componentOf?
  split
  · rename_i hstays
    simp [hstays]
  · rename_i hmoves
    split <;> simp [hmoves]

theorem componentOf?_ne_here : componentOf? segment ≠ some .here := by
  unfold componentOf?
  split
  · simp
  · split <;> simp

theorem filterMap_componentOf?_of_isName (hnames : ∀ name ∈ names, IsName name) :
    names.filterMap componentOf? = names.map .name := by
  rw [← List.filterMap_eq_map]
  refine List.filterMap_congr fun name hname => ?_
  exact componentOf?_of_isName (hnames name hname)

theorem components_of_isName (hnames : ∀ name ∈ names, IsName name) :
    (Path.mk names).components = names.map .name := by
  have habs := isAbsolute_of_isName hnames
  cases names with
  | nil => rfl
  | cons first rest =>
      have hfirst := hnames first List.mem_cons_self
      have hrest : ∀ name ∈ rest, IsName name :=
        fun name hname => hnames name (List.mem_cons_of_mem _ hname)
      unfold components
      rw [habs]
      dsimp only
      rw [if_neg Bool.false_ne_true, if_neg hfirst.ne_here, componentOf?_of_isName hfirst,
        filterMap_componentOf?_of_isName hrest]
      rfl

/-- Only `.` names the working directory by itself. -/
theorem segments_of_here (h : p.components = [.here]) :
    ∃ rest, p.segments = "." :: rest ∧ ∀ segment ∈ rest, stays segment = true := by
  obtain ⟨segments⟩ := p
  cases segments with
  | nil => cases h
  | cons first rest =>
      unfold components at h
      dsimp only at h
      split at h
      · cases h
      · split at h
        · rename_i hdot
          refine ⟨rest, by rw [hdot], fun segment hsegment => ?_⟩
          have hnone : rest.filterMap componentOf? = [] := (List.cons.inj h).2
          exact componentOf?_eq_none_iff.mp (List.filterMap_eq_nil_iff.mp hnone segment hsegment)
        · -- nothing else stands for the working directory
          have hmem : Component.here ∈
              (componentOf? first).toList ++ rest.filterMap componentOf? := by
            rw [h]
            exact List.mem_singleton_self _
          rcases List.mem_append.mp hmem with hfirst | hrest
          · exact absurd (Option.mem_toList.mp hfirst) componentOf?_ne_here
          · obtain ⟨segment, -, hsegment⟩ := List.mem_filterMap.mp hrest
            exact absurd hsegment componentOf?_ne_here

theorem stays_of_here (h : p.components = [.here]) :
    ∀ segment ∈ p.segments, stays segment = true := by
  obtain ⟨rest, hrest, hstays⟩ := segments_of_here h
  rw [hrest]
  intro segment hsegment
  rcases List.mem_cons.mp hsegment with rfl | hin
  · decide
  · exact hstays segment hin

theorem segments_of_trailing_slash (h : p.segments.getLast? = some "") :
    p.segments = p.segments.dropLast ++ [""] := by
  obtain ⟨above, habove⟩ := List.getLast?_eq_some_iff.mp h
  rw [habove, List.dropLast_concat]

theorem mem_segments_of_mem_front (h : segment ∈ p.front) : segment ∈ p.segments := by
  unfold front at h
  split at h
  · cases h
  · split at h
    · exact List.mem_of_mem_dropLast h
    · exact h

theorem foldl_step_stays (h : ∀ segment ∈ segments, stays segment = true) (l : Location) :
    segments.foldl Location.step l = l := by
  induction segments with
  | nil => rfl
  | cons segment rest ih =>
      have hstep : l.step segment = l := if_pos (h segment List.mem_cons_self)
      rw [List.foldl_cons, hstep]
      exact ih fun other hother => h other (List.mem_cons_of_mem _ hother)

/-- The way along the front is the way along the path. -/
theorem foldl_step_front (p : Path) (l : Location) :
    p.front.foldl Location.step l = p.segments.foldl Location.step l := by
  unfold front
  split
  · rename_i hhere
    rw [foldl_step_stays (stays_of_here hhere)]
    rfl
  · split
    · rename_i hslash
      conv => rhs; rw [segments_of_trailing_slash hslash]
      rw [List.foldl_append]
      rfl
    · rfl

theorem start_front (hp : p.isEmpty = false) (hnames : names ≠ [])
    (habs : p.front = [] → (Path.mk names).isAbsolute = false) :
    (Path.mk (p.front ++ names)).start home = p.start home := by
  unfold start
  suffices h : (Path.mk (p.front ++ names)).isAbsolute = p.isAbsolute by rw [h]
  unfold front at habs ⊢
  obtain ⟨segments⟩ := p
  split
  · rename_i hhere
    obtain ⟨rest, hrest, -⟩ := segments_of_here hhere
    dsimp only at hrest
    rw [List.nil_append, habs (if_pos hhere), hrest, isAbsolute_cons]
    rfl
  · rename_i haway
    rw [if_neg haway] at habs
    cases segments with
    | nil =>
        rw [List.getLast?_nil, if_neg (by simp)] at habs ⊢
        rw [List.nil_append, habs rfl]
        rfl
    | cons first rest =>
        cases rest with
        | nil =>
            have hfirst : first ≠ "" := by
              intro heq
              rw [heq] at hp
              exact absurd hp (by decide)
            rw [List.getLast?_singleton, if_neg (by simpa using hfirst), List.singleton_append,
              isAbsolute_cons, isAbsolute_cons, decide_eq_false hfirst, Bool.false_and,
              Bool.false_and]
        | cons second rest =>
            split
            · rw [List.dropLast_cons_cons, List.cons_append, isAbsolute_cons, isAbsolute_cons]
              simp [hnames]
            · rw [List.cons_append, isAbsolute_cons, isAbsolute_cons]
              simp

theorem components_front (hp : p.isEmpty = false) (hnames : ∀ name ∈ names, IsName name)
    (hne : names ≠ []) :
    (Path.mk (p.front ++ names)).components =
      (if p.components = [.here] then [] else p.components) ++ names.map .name := by
  have hstart : (Path.mk (p.front ++ names)).start ["."] = p.start ["."] :=
    start_front hp hne fun _ => isAbsolute_of_isName hnames
  have habs : (Path.mk (p.front ++ names)).isAbsolute = p.isAbsolute := by
    unfold start at hstart
    cases h : (Path.mk (p.front ++ names)).isAbsolute <;> cases h' : p.isAbsolute <;>
      simp_all
  split
  · rename_i hhere
    rw [front, if_pos hhere, List.nil_append, List.nil_append]
    exact components_of_isName hnames
  · rename_i hhere
    obtain ⟨segments⟩ := p
    cases segments with
    | nil =>
        rw [front, if_neg hhere, List.getLast?_nil, if_neg (by simp), List.nil_append]
        exact components_of_isName hnames
    | cons first rest =>
        -- the first segment stays, and what is cut off the others does not move
        obtain ⟨more, hmore, hsame⟩ : ∃ more, (Path.mk (first :: rest)).front = first :: more ∧
            more.filterMap componentOf? = rest.filterMap componentOf? := by
          unfold front
          rw [if_neg hhere]
          split
          · rename_i hslash
            cases rest with
            | nil =>
                rw [List.getLast?_singleton, Option.some.injEq] at hslash
                rw [hslash] at hp
                exact absurd hp (by decide)
            | cons second rest =>
                refine ⟨(second :: rest).dropLast, List.dropLast_cons_cons, ?_⟩
                rw [List.getLast?_cons_cons] at hslash
                have hcut := segments_of_trailing_slash (p := ⟨second :: rest⟩) hslash
                dsimp only at hcut
                conv => rhs; rw [hcut]
                rw [List.filterMap_append]
                simp [componentOf?, stays]
          · exact ⟨rest, rfl, rfl⟩
        rw [hmore] at habs ⊢
        unfold components
        rw [List.cons_append] at habs ⊢
        dsimp only
        rw [habs, List.filterMap_append, hsame, filterMap_componentOf?_of_isName hnames,
          List.append_assoc]

/-! ## The front of longer paths -/

theorem components_of_here {rest : List String} (h : ∀ segment ∈ rest, stays segment = true) :
    (Path.mk ("." :: rest)).components = [.here] := by
  have hnone : rest.filterMap componentOf? = [] :=
    List.filterMap_eq_nil_iff.mpr fun segment hsegment =>
      componentOf?_eq_none_iff.mpr (h segment hsegment)
  unfold components
  rw [isAbsolute_cons]
  dsimp only
  rw [hnone]
  rfl

theorem front_ne_nil (hp : p.segments ≠ []) (hempty : p.isEmpty = false)
    (hhere : p.components ≠ [.here]) : p.front ≠ [] := by
  unfold front
  rw [if_neg hhere]
  split
  · rename_i hslash
    intro hnil
    have hcut := segments_of_trailing_slash hslash
    rw [hnil] at hcut
    rw [isEmpty, hcut] at hempty
    exact absurd hempty (by decide)
  · exact hp

theorem segments_eq_of_front_ne_nil (h : p.front ≠ []) :
    p.segments = p.front ++ [""] ∨ p.segments = p.front := by
  unfold front at h ⊢
  split at h
  · exact absurd rfl h
  · rename_i haway
    rw [if_neg haway]
    split
    · rename_i hslash
      exact .inl (segments_of_trailing_slash hslash)
    · exact .inr rfl

/-- Without a front, a path does not move. -/
theorem stays_of_front_eq_nil (h : p.front = []) :
    ∀ segment ∈ p.segments, stays segment = true := by
  unfold front at h
  split at h
  · rename_i hhere
    exact stays_of_here hhere
  · split at h
    · rename_i hslash
      rw [segments_of_trailing_slash hslash, h]
      intro segment hsegment
      rw [List.mem_singleton.mp hsegment]
      decide
    · rw [h]
      intro segment hsegment
      cases hsegment

/-- Away from the working directory, no longer path leads back to it. -/
theorem components_front_append_ne_here (hp : p.front ≠ []) (names : List String) :
    (Path.mk (p.front ++ names)).components ≠ [.here] := by
  intro hback
  obtain ⟨rest, hrest, hstays⟩ := segments_of_here hback
  obtain ⟨first, more, hfront⟩ := List.exists_cons_of_ne_nil hp
  dsimp only at hrest
  rw [hfront, List.cons_append, List.cons.injEq] at hrest
  obtain ⟨rfl, rfl⟩ := hrest
  have hmore : ∀ segment ∈ more, stays segment = true :=
    fun other hother => hstays other (List.mem_append_left _ hother)
  -- the path itself began there, and what was cut off does not move either
  suffices hhere : p.components = [.here] from hp (if_pos hhere)
  have hsegments := segments_eq_of_front_ne_nil hp
  rw [hfront] at hsegments
  obtain ⟨segments⟩ := p
  rcases hsegments with rfl | rfl
  · refine components_of_here fun other hother => ?_
    rcases List.mem_append.mp hother with hin | hlast
    · exact hmore other hin
    · rw [List.mem_singleton.mp hlast]
      decide
  · exact components_of_here hmore

/-- Paths below a path keep its front. -/
theorem front_prefix_front (hnames : names ≠ []) :
    p.front <+: (Path.mk (p.front ++ names)).front := by
  by_cases hp : p.front = []
  · rw [hp]
    exact List.nil_prefix
  · rw [front.eq_def ⟨p.front ++ names⟩, if_neg (components_front_append_ne_here hp names)]
    split
    · rw [List.dropLast_append_of_ne_nil hnames]
      exact List.prefix_append _ _
    · exact List.prefix_append _ _

/-- A path that ends in a name is the front of what lies below. -/
theorem front_concat (above : List String) (h : IsName name) :
    (Path.mk (above ++ [name])).front = above ++ [name] := by
  unfold front
  split
  · rename_i hhere
    obtain ⟨rest, hrest, hstays⟩ := segments_of_here hhere
    have hmem : name ∈ "." :: rest := by
      rw [← hrest]
      exact List.mem_concat_self
    rcases List.mem_cons.mp hmem with hdot | hin
    · exact absurd hdot h.ne_here
    · exact absurd (hstays name hin) (by rw [h.1]; exact Bool.false_ne_true)
  · rw [if_neg]
    rw [List.getLast?_concat, Option.some.injEq]
    exact h.ne_blank

/-- A path that ends in a name has that file name. -/
theorem fileName?_concat (above : List String) (h : IsName name) :
    (Path.mk (above ++ [name])).fileName? = some name := by
  have hlast : (Path.mk (above ++ [name])).components.getLast? = some (.name name) := by
    cases above with
    | nil =>
        rw [List.nil_append, components_of_isName (by simpa using h)]
        rfl
    | cons first rest =>
        unfold components
        rw [List.cons_append]
        dsimp only
        have hlast : [name].filterMap componentOf? = [.name name] :=
          filterMap_componentOf?_of_isName (by simpa using h)
        rw [List.filterMap_append, ← List.append_assoc, hlast]
        exact List.getLast?_concat
  unfold fileName?
  rw [hlast]

/-! ## Lengths -/

/-- The number of bytes of segments with a slash behind each of them. -/
def span : List String → Nat
  | [] => 0
  | segment :: rest => segment.utf8ByteSize + 1 + span rest

@[simp] theorem span_nil : span [] = 0 := rfl

@[simp] theorem span_cons (segment : String) (rest : List String) :
    span (segment :: rest) = segment.utf8ByteSize + 1 + span rest := rfl

@[simp] theorem span_append (front rest : List String) :
    span (front ++ rest) = span front + span rest := by
  induction front with
  | nil => rw [List.nil_append, span_nil, Nat.zero_add]
  | cons segment more ih =>
      rw [List.cons_append, span_cons, span_cons, ih]
      omega

theorem size_toText (h : segments ≠ []) :
    (Path.mk segments).toText.utf8ByteSize + 1 = span segments := by
  unfold toText
  induction segments with
  | nil => exact absurd rfl h
  | cons first rest ih =>
      cases rest with
      | nil => simp [String.intercalate_singleton]
      | cons second rest =>
          have hrest := ih (by simp)
          dsimp only at hrest ⊢
          rw [String.intercalate_cons_cons, String.utf8ByteSize_append, String.utf8ByteSize_append,
            span_cons, ← hrest]
          have hslash : "/".utf8ByteSize = 1 := by decide
          omega

theorem hasFittingLength_iff (h : segments ≠ []) :
    (Path.mk segments).hasFittingLength = true ↔ span segments ≤ longestPath + 1 := by
  rw [← size_toText h, hasFittingLength, decide_eq_true_eq]
  omega

theorem span_dropLast_le (segments : List String) : span segments.dropLast ≤ span segments := by
  induction segments with
  | nil => exact Nat.le_refl _
  | cons first rest ih =>
      cases rest with
      | nil => simp
      | cons second rest =>
          rw [List.dropLast_cons_cons, span_cons, span_cons]
          exact Nat.add_le_add_left ih _

theorem span_dropWhile_le (segments : List String) :
    span (segments.dropWhile (· = "")) ≤ span segments := by
  induction segments with
  | nil => exact Nat.le_refl _
  | cons first rest ih =>
      rw [List.dropWhile_cons]
      split
      · rw [span_cons]
        omega
      · exact Nat.le_refl _

theorem span_front_le (p : Path) : span p.front ≤ span p.segments := by
  unfold front
  split
  · exact Nat.zero_le _
  · split
    · exact span_dropLast_le _
    · exact Nat.le_refl _

/-- If a path below can be used, so can the path itself. -/
theorem Usable.of_front (h : (Path.mk (p.front ++ names)).Usable) (hfront : p.front ≠ [])
    (hnames : names ≠ []) : p.Usable := by
  obtain ⟨hfree, hfits, -⟩ := h
  have hsegments := segments_eq_of_front_ne_nil hfront
  have hne : p.segments ≠ [] := by
    rcases hsegments with heq | heq
    · simp [heq]
    · rwa [heq]
  rw [List.any_append, Bool.or_eq_false_iff] at hfree
  rw [hasFittingLength_iff (by simp [hfront]), span_append] at hfits
  refine ⟨?_, (hasFittingLength_iff hne).mpr ?_, ?_⟩
  · rcases hsegments with heq | heq
    · rw [heq, List.any_append, hfree.1]
      decide
    · rw [heq]
      exact hfree.1
  · have hone : 1 ≤ span names := by
      obtain ⟨first, rest, rfl⟩ := List.exists_cons_of_ne_nil hnames
      rw [span_cons]
      omega
    have hblank : span [""] = 1 := by decide
    rcases hsegments with heq | heq
    · rw [heq, span_append]
      omega
    · rw [heq]
      omega
  · rw [isEmpty, decide_eq_false_iff_not]
    rintro heq
    rw [front, heq] at hfront
    split at hfront
    · exact hfront rfl
    · exact hfront rfl

/-! ## Paths below a path -/

theorem within_eq (habs : (Path.mk names).isAbsolute = false) :
    within p names = ⟨p.front ++ names⟩ := by
  unfold within front
  split
  · rfl
  · unfold join
    rw [habs, if_neg Bool.false_ne_true]
    split <;> rfl

theorem start_join (hp : p.isEmpty = false) (hnames : names ≠ [])
    (habs : (Path.mk names).isAbsolute = false) : (p.join ⟨names⟩).start home = p.start home := by
  by_cases hhere : p.components = [.here]
  · obtain ⟨rest, hrest, -⟩ := segments_of_here hhere
    obtain ⟨segments⟩ := p
    dsimp only at hrest
    subst hrest
    have hdot : ∀ more, (Path.mk ("." :: more)).isAbsolute = false := fun more => by
      rw [isAbsolute_cons]
      rfl
    suffices hjoin : ((Path.mk ("." :: rest)).join ⟨names⟩).isAbsolute = false by
      rw [start, start, hjoin, hdot]
    unfold join
    rw [habs, if_neg Bool.false_ne_true]
    cases rest with
    | nil => exact hdot names
    | cons second rest =>
        split
        · exact hdot ((second :: rest).dropLast ++ names)
        · exact hdot (second :: rest ++ names)
  · have hjoin : p.join ⟨names⟩ = ⟨p.front ++ names⟩ := by
      rw [← within_eq habs]
      exact (if_neg hhere).symm
    rw [hjoin]
    exact start_front hp hnames fun _ => habs

theorem locationFrom_within (hp : p.isEmpty = false) (habs : (Path.mk names).isAbsolute = false)
    (hne : names ≠ []) :
    locationFrom home (within p names) = names.foldl Location.step (locationFrom home p) := by
  rw [within_eq habs, locationFrom, start_front hp hne fun _ => habs, List.foldl_append,
    foldl_step_front]
  rfl

theorem foldl_step_of_isName (hnames : ∀ name ∈ names, IsName name) (l : Location) :
    names.foldl Location.step l = l ++ names := by
  induction names generalizing l with
  | nil => rw [List.append_nil]; rfl
  | cons name rest ih =>
      rw [List.foldl_cons, Location.step_name (hnames name List.mem_cons_self),
        ih (fun other hother => hnames other (List.mem_cons_of_mem _ hother)),
        List.append_assoc, List.singleton_append]

/-- A path that ends in a name leads to a location with that name. -/
theorem locationFrom_concat (home : Location) (above : List String) (h : IsName name) :
    ∃ l, locationFrom home ⟨above ++ [name]⟩ = l ++ [name] := by
  refine ⟨above.foldl Location.step ((Path.mk (above ++ [name])).start home), ?_⟩
  rw [locationFrom, List.foldl_append]
  exact Location.step_name h _

end Path

/-! ## Going on from a directory -/

namespace FileTree

variable {t : FileTree} {a b : List String} {y z : Target} {e : Entry}

theorem follow_append_blank (hb : b ≠ []) (l : Location) :
    t.follow l (a ++ "" :: b) = t.follow l (a ++ b) := by
  induction a generalizing l with
  | nil => rw [List.nil_append, follow, if_pos (by decide)]; rfl
  | cons segment rest ih =>
      have hall : (rest ++ "" :: b).all (· = "") = (rest ++ b).all (· = "") := by
        rw [List.all_append, List.all_append, List.all_cons]
        rfl
      have hempty : (rest ++ "" :: b).isEmpty = (rest ++ b).isEmpty := by
        rw [Bool.eq_iff_iff, List.isEmpty_iff, List.isEmpty_iff]
        simp [hb]
      rw [List.cons_append, List.cons_append, follow, follow, ih, ih, ih, hall, hempty]

theorem Follows.of_stays (ha : ∀ segment ∈ a, Path.stays segment = true)
    (h : t.Follows l b z) : t.Follows l (a ++ b) z := by
  induction a with
  | nil => exact h
  | cons segment rest ih =>
      exact .stay (ha segment List.mem_cons_self)
        (ih fun other hother => ha other (List.mem_cons_of_mem _ hother))

/-- From a directory at the end of a way, another way goes on. -/
theorem Follows.append (h : t.Follows l a y) (hy : t.Entered y)
    (hb : b.all (· = "") = false) (hz : t.Follows y.location b z) : t.Follows l (a ++ b) z := by
  induction h with
  | done l => exact hz
  | stay hstay _ ih => exact .stay hstay (ih hy hz)
  | up _ ih => exact .up (ih hy hz)
  | @last l segment rest hname hall =>
      have hblank : ∀ segment ∈ rest, Path.stays segment = true := by
        intro other hother
        have : other = "" := by simpa using List.all_eq_true.mp hall other hother
        rw [this]
        decide
      have hmore : (rest ++ b).all (· = "") = false := by
        rw [List.all_append, hb, Bool.and_false]
      exact .into hname hmore (lookUp_eq_ok_iff.mpr hy) (hz.of_stays hblank)
  | @into l segment rest x hname hall hdir _ ih =>
      have hmore : (rest ++ b).all (· = "") = false := by
        rw [List.all_append, hall, Bool.false_and]
      exact .into hname hmore hdir (ih hy hz)

/-- A slash behind the way to a directory changes nothing. -/
theorem Follows.append_slash (h : t.Follows l a y) (hy : t.Entered y) :
    ∃ z, t.Follows l (a ++ [""]) z ∧ t.Entered z := by
  induction h with
  | done l => exact ⟨_, .stay (by decide) (.done l), hy⟩
  | stay hstay _ ih =>
      obtain ⟨z, hz, hentered⟩ := ih hy
      exact ⟨z, .stay hstay hz, hentered⟩
  | up _ ih =>
      obtain ⟨z, hz, hentered⟩ := ih hy
      exact ⟨z, .up hz, hentered⟩
  | @last l segment rest hname hall =>
      have hmore : (rest ++ [""]).all (· = "") = true := by
        rw [List.all_append, hall]
        rfl
      exact ⟨_, .last l hname hmore, hy⟩
  | @into l segment rest x hname hall hdir _ ih =>
      obtain ⟨z, hz, hentered⟩ := ih hy
      have hmore : (rest ++ [""]).all (· = "") = false := by
        rw [List.all_append, hall, Bool.false_and]
      exact ⟨z, .into hname hmore hdir hz, hentered⟩

/-- The front of a path leads on as the path itself does. -/
theorem follow_front (p : Path) (hb : b ≠ []) (l : Location) :
    t.follow l (p.front ++ b) = t.follow l (p.segments ++ b) := by
  unfold Path.front
  split
  · rename_i hhere
    have hall := Path.stays_of_here hhere
    generalize p.segments = segments at hall
    induction segments with
    | nil => rfl
    | cons segment more ih =>
        rw [List.cons_append, follow, if_pos (hall segment List.mem_cons_self)]
        exact ih fun other hother => hall other (List.mem_cons_of_mem _ hother)
  · split
    · rename_i hslash
      conv => rhs; rw [Path.segments_of_trailing_slash hslash]
      rw [List.append_assoc, List.singleton_append, follow_append_blank hb]
    · rfl

/-- What is joined to a path leads on as it does behind the path. -/
theorem follow_join (p : Path) (hb : b ≠ []) (habs : (Path.mk b).isAbsolute = false)
    (l : Location) : t.follow l (p.join ⟨b⟩).segments = t.follow l (p.segments ++ b) := by
  unfold Path.join
  rw [habs, if_neg Bool.false_ne_true]
  split
  · rename_i hslash
    conv => rhs; rw [Path.segments_of_trailing_slash hslash]
    rw [List.append_assoc, List.singleton_append, follow_append_blank hb]
  · rfl

theorem usable_of_isDirectory (h : t.isDirectory p = true) : p.Usable := by
  obtain ⟨x, hx, -⟩ := isDirectory_iff.mp h
  exact (target_eq_ok_iff.mp hx).1

/-- **Below a directory, a path leads on from there.** -/
theorem target_within (hp : t.isDirectory p = true) (habs : (Path.mk b).isAbsolute = false)
    (hb : b.all (· = "") = false) (husable : (within p b).Usable)
    (hz : t.Follows (t.locationOf p) b z) : t.target (within p b) = .ok z := by
  obtain ⟨y, hy, hentered⟩ := isDirectory_iff.mp hp
  obtain ⟨hpusable, hfollows⟩ := target_eq_ok_iff.mp hy
  have hne : b ≠ [] := by
    intro hnil
    rw [hnil] at hb
    cases hb
  rw [← location_of_target hy] at hz
  rw [Path.within_eq habs] at husable ⊢
  refine target_eq_ok_iff.mpr ⟨husable, ?_⟩
  rw [Path.start_front hpusable.2.2 hne fun _ => habs]
  exact follows_of_follow
    ((follow_front p hne _).trans (hfollows.append hentered hb hz).follow)

/-- One segment leads from a directory into another one. -/
theorem isDirectory_within (hp : t.isDirectory p = true) (husable : (within p [segment]).Usable)
    (hz : t.Follows (t.locationOf p) [segment] z) (hentered : t.Entered z) :
    t.isDirectory (within p [segment]) = true := by
  have habs := Path.isAbsolute_singleton segment
  by_cases hblank : segment = ""
  · subst hblank
    rw [Path.within_eq habs] at husable ⊢
    unfold Path.front at husable ⊢
    split at husable
    · exact absurd husable.2.2 (by decide)
    · split at husable
      · rename_i hhere hslash
        rw [if_neg hhere, if_pos hslash, ← Path.segments_of_trailing_slash hslash]
        exact hp
      · rename_i hhere hslash
        rw [if_neg hhere, if_neg hslash]
        obtain ⟨y, hy, hentered⟩ := isDirectory_iff.mp hp
        obtain ⟨hpusable, hfollows⟩ := target_eq_ok_iff.mp hy
        obtain ⟨z, hz, hz'⟩ := hfollows.append_slash hentered
        refine isDirectory_iff.mpr ⟨z, target_eq_ok_iff.mpr ⟨husable, ?_⟩, hz'⟩
        have hstart : (Path.mk (p.front ++ [""])).start t.workingDirectory =
            p.start t.workingDirectory :=
          Path.start_front hpusable.2.2 (by simp) fun _ => habs
        rw [Path.front, if_neg hhere, if_neg hslash] at hstart
        rw [hstart]
        exact hz
  · have ht := target_within hp habs (by simpa using hblank) husable hz
    exact isDirectory_iff.mpr ⟨z, ht, hentered⟩

end FileTree

end BenchGate
