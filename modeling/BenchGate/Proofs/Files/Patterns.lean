import BenchGate.Proofs.Files.Below

/-!
# Patterns without wildcards of their own

A path is pasted into the pattern for what lies below it. If there is no wildcard in it, each of its
segments stands for itself, and the one part of the pattern that chooses among names is `*.json` at
its end. A name fits that exactly if it ends in `.json`.
-/

namespace BenchGate

/-! ## Plain texts -/

/-- A character that stands for itself in a pattern. -/
def IsPlainChar (c : Char) : Prop := c ≠ '*' ∧ c ≠ '?' ∧ c ≠ '['

instance (c : Char) : Decidable (IsPlainChar c) := inferInstanceAs (Decidable (_ ∧ _ ∧ _))

/-- A text without wildcards. -/
def IsPlainText (text : String) : Prop := ∀ c ∈ text.toList, IsPlainChar c

instance (text : String) : Decidable (IsPlainText text) :=
  List.decidableBAll IsPlainChar text.toList

/-- A path as a text without wildcards gives it. -/
def Path.IsPlain (p : Path) : Prop := IsPlainText p.toText ∧ p = .ofText p.toText

instance (p : Path) : Decidable p.IsPlain := inferInstanceAs (Decidable (_ ∧ _))

namespace Path

variable {p : Path} {segment text : String}

theorem toText_ofText (text : String) : (ofText text).toText = text := by
  have hsame : String.toList ∘ String.ofList = id := by
    funext chars
    exact String.toList_ofList
  unfold toText ofText
  rw [← String.toList_inj, String.toList_intercalate, List.map_map, hsame, List.map_id]
  exact List.intercalate_splitOn '/'

theorem isPlain_ofText (h : IsPlainText text) : (ofText text).IsPlain := by
  unfold IsPlain
  rw [toText_ofText]
  exact ⟨h, rfl⟩

theorem segments_ofText_append (text rest : String) :
    (ofText (text ++ "/" ++ rest)).segments = (ofText text).segments ++ (ofText rest).segments := by
  unfold ofText
  dsimp only
  rw [String.toList_append, String.toList_append, List.append_assoc, ← List.map_append]
  exact congrArg _ (List.splitOn_append_cons_self text.toList rest.toList)

theorem mem_toText {segments : List String} (hsegment : segment ∈ segments) {c : Char}
    (hc : c ∈ segment.toList) : c ∈ (Path.mk segments).toText.toList := by
  unfold toText
  dsimp only
  induction segments with
  | nil => cases hsegment
  | cons first rest ih =>
      cases rest with
      | nil =>
          rw [List.mem_singleton.mp hsegment] at hc
          rwa [String.intercalate_singleton]
      | cons second rest =>
          rw [String.intercalate_cons_cons, String.toList_append]
          rcases List.mem_cons.mp hsegment with rfl | hmem
          · rw [String.toList_append]
            exact List.mem_append_left _ (List.mem_append_left _ hc)
          · exact List.mem_append_right _ (ih hmem)

/-- The segments of a plain path are plain. -/
theorem IsPlain.isPlainText (h : p.IsPlain) (hsegment : segment ∈ p.segments) :
    IsPlainText segment := fun c hc => h.1 c (mem_toText hsegment hc)

theorem IsPlain.segments_ne_nil (h : p.IsPlain) : p.segments ≠ [] := by
  rw [h.2]
  unfold ofText
  simp

end Path

/-! ## Tokens -/

namespace GlobToken

variable {chars rest left : List Char} {lefts : List (List Char)} {fuel position : Nat}
  {before : Option Char} {tokens : List GlobToken}

/-- Plain characters stand for themselves. -/
theorem scan_plain (h : ∀ c ∈ chars, IsPlainChar c)
    (hrest : ∀ position before, scan fuel position before rest = .ok tokens) :
    scan (chars.length + fuel) position before (chars ++ rest) =
      .ok (chars.map .char ++ tokens) := by
  induction chars generalizing position before with
  | nil =>
      rw [List.length_nil, Nat.zero_add]
      exact hrest position before
  | cons c more ih =>
      obtain ⟨hstar, hquestion, hbracket⟩ := h c List.mem_cons_self
      have hmore : ∀ other ∈ more, IsPlainChar other :=
        fun other hother => h other (List.mem_cons_of_mem _ hother)
      have hlength : (c :: more).length + fuel = more.length + fuel + 1 := by
        rw [List.length_cons]
        omega
      rw [hlength, List.cons_append]
      unfold scan
      rw [if_neg hquestion, if_neg hstar, if_neg hbracket, ih hmore]
      rfl

/-- The tokens of a plain text are its characters. -/
theorem ofText_of_isPlainText {text : String} (h : IsPlainText text) :
    ofText text = .ok (text.toList.map .char) := by
  have hscan : scan (text.toList.length + 0) 0 none (text.toList ++ []) =
      .ok (text.toList.map .char ++ []) := scan_plain h fun _ _ => rfl
  rwa [Nat.add_zero, List.append_nil, List.append_nil, String.length_toList] at hscan

/-- The tokens of `*.json`. -/
def ofRecordFiles : List GlobToken := .anySequence :: ".json".toList.map .char

theorem scan_below (position : Nat) (before : Option Char) :
    scan 10 position before "/**/*.json".toList =
      .ok (.char '/' :: .anyDirectories :: ofRecordFiles) := by
  simp [scan, ofRecordFiles]

/-- Below a plain path, the pattern has nothing wrong. -/
theorem ofText_below {text : String} (h : IsPlainText text) :
    ofText (text ++ "/**/*.json") =
      .ok (text.toList.map .char ++ .char '/' :: .anyDirectories :: ofRecordFiles) := by
  unfold ofText
  rw [String.length_append, String.toList_append, ← String.length_toList]
  exact scan_plain h scan_below

theorem mem_suffixes : left ∈ suffixes chars ↔ left <:+ chars := by
  induction chars with
  | nil => rw [suffixes, List.mem_singleton, List.suffix_nil]
  | cons c more ih => rw [suffixes, List.mem_cons, List.suffix_cons_iff, ih]

theorem admits_char {c first : Char} : admits first (char c) = true ↔ c = first :=
  decide_eq_true_iff

theorem dropFirst?_char {c first : Char} :
    (char c).dropFirst? (first :: rest) = some left ↔ c = first ∧ rest = left := by
  rw [dropFirst?, Option.ite_none_right_eq_some, admits_char, Option.some.injEq]

theorem mem_advance_char {c : Char} : left ∈ advance lefts (.char c) ↔ c :: left ∈ lefts := by
  unfold advance
  rw [List.mem_filterMap]
  constructor
  · rintro ⟨from', hmem, hleft⟩
    cases from' with
    | nil => cases hleft
    | cons first more =>
        obtain ⟨rfl, rfl⟩ := dropFirst?_char.mp hleft
        exact hmem
  · intro hmem
    exact ⟨c :: left, hmem, dropFirst?_char.mpr ⟨rfl, rfl⟩⟩

/-- Characters are passed from all rests that begin with them. -/
theorem mem_foldl_advance :
    left ∈ (chars.map .char).foldl advance lefts ↔ chars ++ left ∈ lefts := by
  induction chars generalizing lefts with
  | nil => rfl
  | cons c more ih => rw [List.map_cons, List.foldl_cons, ih, mem_advance_char, List.cons_append]

/-- **A name fits `*.json` exactly if it ends in `.json`.** -/
theorem fits_ofRecordFiles (name : List Char) :
    fits ofRecordFiles name = true ↔ ".json".toList <:+ name := by
  have hnil : ∀ lefts : List (List Char), lefts.any List.isEmpty = true ↔ [] ∈ lefts := by
    intro lefts
    simp
  unfold fits ofRecordFiles
  rw [hnil, List.foldl_cons, mem_foldl_advance, List.append_nil]
  exact mem_suffixes

end GlobToken

/-! ## Components -/

namespace GlobComponent

theorem ofText_of_isPlainText {text : String} (h : IsPlainText text) :
    ofText text = .ok (.literal text) := by
  have hplain : ((text.toList.map GlobToken.char).filterMap plainChar?).length =
      (text.toList.map GlobToken.char).length := by
    rw [List.filterMap_map]
    simp [Function.comp_def, plainChar?]
  have hname : text.toList.map GlobToken.char ≠ [.anyDirectories] := by
    cases text.toList <;> simp
  unfold ofText
  rw [GlobToken.ofText_of_isPlainText h, ok_bind, if_neg hname, if_pos hplain]
  rfl

theorem mapM_ofText {segments : List String} (h : ∀ segment ∈ segments, IsPlainText segment) :
    segments.mapM ofText = .ok (segments.map .literal) := by
  induction segments with
  | nil => rfl
  | cons segment rest ih =>
      rw [List.mapM_cons, ofText_of_isPlainText (h segment List.mem_cons_self), ok_bind,
        ih fun other hother => h other (List.mem_cons_of_mem _ hother)]
      rfl

theorem collapse_literals (segments : List String) (rest : List GlobComponent) :
    collapse (segments.map .literal ++ rest) = segments.map .literal ++ collapse rest := by
  induction segments with
  | nil => rfl
  | cons segment more ih =>
      rw [List.map_cons, List.cons_append, collapse, ih, List.cons_append]
      simp

/-- What a pattern ends in is left by that, if it is no `**`. -/
theorem getLast?_collapse {c : GlobComponent} (hc : c ≠ directories)
    {components : List GlobComponent} (h : components.getLast? = some c) :
    (collapse components).getLast? = some c := by
  have hcons : ∀ {first : GlobComponent} {rest : List GlobComponent},
      rest.getLast? = some c → (first :: rest).getLast? = some c := by
    intro first rest hrest
    rw [List.getLast?_cons, hrest]
    rfl
  induction components with
  | nil => cases h
  | cons first rest ih =>
      cases rest with
      | nil =>
          obtain rfl : first = c := Option.some.inj h
          cases first with
          | directories => exact absurd rfl hc
          | literal segment => rfl
          | wild tokens => rfl
      | cons second rest =>
          have hrest := ih h
          cases first with
          | literal segment => exact hcons hrest
          | wild tokens => exact hcons hrest
          | directories =>
              rw [collapse]
              split
              · rename_i others heq
                rw [heq] at hrest
                exact hrest
              · exact hcons hrest

end GlobComponent

end BenchGate
