import BenchGate.Proofs.Json.Measures
import BenchGate.Proofs.WrittenSummary

/-!
# What a document keeps

A document that was written is always read, since none of its measures comes back out of range. It
keeps its shape: the value of a field is read in the place of that field, objects have the names
they had, and only the finite measures may be other numbers. What is said here of one field is all
that is needed to say it of a report.
-/

namespace BenchGate

attribute [local irreducible] unitsInOne unitsAtTop

namespace Json

mutual

/-- **Every value comes back.** -/
theorem exists_reread : ∀ v : Json, ∃ w, v.reread = .ok w
  | null => ⟨_, rfl⟩
  | bool _ => ⟨_, rfl⟩
  | number n => by
      obtain ⟨m, hm⟩ := n.exists_reread
      exact ⟨number m, congrArg (Except.map number) hm⟩
  | string _ => ⟨_, rfl⟩
  | array elements => by
      obtain ⟨vs, hvs⟩ := exists_rereadElements elements
      exact ⟨array vs, congrArg (Except.map array) hvs⟩
  | object fields => by
      obtain ⟨vs, hvs⟩ := exists_rereadFields fields
      exact ⟨object vs, congrArg (Except.map object) hvs⟩

theorem exists_rereadElements : ∀ elements : List Json, ∃ vs, rereadElements elements = .ok vs
  | [] => ⟨[], rfl⟩
  | element :: elements => by
      obtain ⟨v, hv⟩ := exists_reread element
      obtain ⟨vs, hvs⟩ := exists_rereadElements elements
      exact ⟨v :: vs, by rw [rereadElements, hv, hvs]; rfl⟩

theorem exists_rereadFields : ∀ fields : List (String × Json), ∃ vs, rereadFields fields = .ok vs
  | [] => ⟨[], rfl⟩
  | (name, value) :: fields => by
      obtain ⟨v, hv⟩ := exists_reread value
      obtain ⟨vs, hvs⟩ := exists_rereadFields fields
      exact ⟨(name, v) :: vs, by rw [rereadFields, hv, hvs]; rfl⟩

end

/-- **A document that was written is always read.** -/
theorem exists_parse {v : Json} (h : Readable maxDepth v) :
    ∃ w, parse (render v) = .ok w ∧ v.reread = .ok w := by
  obtain ⟨w, hw⟩ := v.exists_reread
  exact ⟨w, (parse_render h).trans hw, hw⟩

/-! ## The fields of an object -/

section Fields

variable {v w a : Json} {key : String}

/-- A field comes back under its name. -/
def ComesBackAs (field other : String × Json) : Prop :=
  other.1 = field.1 ∧ field.2.reread = .ok other.2

/-- Every field comes back in its place. -/
theorem comesBackAs_of_rereadFields {fields vs : List (String × Json)}
    (h : rereadFields fields = .ok vs) : List.Forall₂ ComesBackAs fields vs := by
  induction fields generalizing vs with
  | nil =>
      obtain rfl := Except.ok.inj h
      exact .nil
  | cons field fields ih =>
      obtain ⟨name, value⟩ := field
      rw [rereadFields] at h
      obtain ⟨v, hv, h⟩ := exists_ok_of_bind h
      obtain ⟨rest, hrest, h⟩ := exists_ok_of_bind h
      obtain rfl := Except.ok.inj h
      exact .cons ⟨rfl, hv⟩ (ih hrest)

theorem lookup_comesBack {fields vs : List (String × Json)} (h : List.Forall₂ ComesBackAs fields vs)
    (hlookup : fields.lookup key = some a) : ∃ b, vs.lookup key = some b ∧ a.reread = .ok b := by
  induction h with
  | nil => cases hlookup
  | @cons field other fields vs hfield _ ih =>
      obtain ⟨name, value⟩ := field
      obtain ⟨name', value'⟩ := other
      obtain ⟨rfl, hvalue⟩ : name' = name ∧ value.reread = .ok value' := hfield
      rw [List.lookup_cons] at hlookup ⊢
      split at hlookup
      · obtain rfl := Option.some.inj hlookup
        exact ⟨value', rfl, hvalue⟩
      · exact ih hlookup

theorem names_comeBack {fields vs : List (String × Json)} (h : List.Forall₂ ComesBackAs fields vs) :
    vs.map Prod.fst = fields.map Prod.fst := by
  induction h with
  | nil => rfl
  | cons hfield _ ih => rw [List.map_cons, List.map_cons, hfield.1, ih]

theorem exists_fields_of_reread {fields : List (String × Json)}
    (h : (object fields).reread = .ok w) :
    ∃ vs, w = object vs ∧ rereadFields fields = .ok vs := by
  have h : (rereadFields fields).map object = .ok w := h
  cases hfields : rereadFields fields with
  | error cause =>
      rw [hfields] at h
      cases h
  | ok vs =>
      rw [hfields] at h
      exact ⟨vs, (Except.ok.inj h).symm, rfl⟩

/-- **A field is read in the place of that field.** -/
theorem get?_of_reread (h : v.reread = .ok w) (hget : v.get? key = some a) :
    ∃ b, w.get? key = some b ∧ a.reread = .ok b := by
  cases v with
  | object fields =>
      obtain ⟨vs, rfl, hvs⟩ := exists_fields_of_reread h
      exact lookup_comesBack (List.forall₂_reverse_iff.mpr (comesBackAs_of_rereadFields hvs)) hget
  | null => cases hget
  | bool b => cases hget
  | number n => cases hget
  | string s => cases hget
  | array elements => cases hget

/-- An object has the names that it had. -/
theorem keys?_of_reread {names : List String} (h : v.reread = .ok w)
    (hkeys : v.keys? = some names) : w.keys? = some names := by
  cases v with
  | object fields =>
      obtain ⟨vs, rfl, hvs⟩ := exists_fields_of_reread h
      rw [← hkeys]
      exact congrArg some (names_comeBack (comesBackAs_of_rereadFields hvs))
  | null => cases hkeys
  | bool b => cases hkeys
  | number n => cases hkeys
  | string s => cases hkeys
  | array elements => cases hkeys

/-- A field is found by its name if no other one has that name. -/
theorem get?_of_mem {fields : List (String × Json)} (hnodup : (fields.map Prod.fst).Nodup)
    (h : (key, a) ∈ fields) : (object fields).get? key = some a := by
  obtain ⟨before, after, hsplit⟩ := List.append_of_mem (List.mem_reverse.mpr h)
  have hnames : (fields.reverse.map Prod.fst).Nodup := by
    rwa [List.map_reverse, List.nodup_reverse]
  rw [hsplit, List.map_append, List.nodup_append] at hnames
  refine List.lookup_eq_some_iff.mpr ⟨before, after, hsplit, fun field hfield => ?_⟩
  have hne := hnames.2.2 field.1 (List.mem_map_of_mem hfield) key List.mem_cons_self
  simpa using hne.symm

/-- There is a field of that name, and `P` holds of its value. -/
def Holds (v : Json) (key : String) (P : Json → Prop) : Prop := ∃ w, v.get? key = some w ∧ P w

theorem Holds.of_reread {P : Json → Prop} (h : v.reread = .ok w) (hget : v.get? key = some a)
    (hP : ∀ b, a.reread = .ok b → P b) : w.Holds key P := by
  obtain ⟨b, hb, hread⟩ := get?_of_reread h hget
  exact ⟨b, hb, hP b hread⟩

/-- What is read as itself stands in its field as it was written. -/
theorem get?_of_exact (h : v.reread = .ok w) (hget : v.get? key = some a)
    (ha : a.reread = .ok a) : w.get? key = some a := by
  obtain ⟨b, hb, hread⟩ := get?_of_reread h hget
  rw [hb, Except.ok.inj (ha.symm.trans hread)]

/-! Counts, flags and texts are read as themselves. -/

theorem get?_count {n : Nat} (h : v.reread = .ok w) (hget : v.get? key = some (ofNat n)) :
    w.get? key = some (ofNat n) := get?_of_exact h hget rfl

theorem get?_flag {b : Bool} (h : v.reread = .ok w) (hget : v.get? key = some (bool b)) :
    w.get? key = some (bool b) := get?_of_exact h hget rfl

theorem get?_text {s : String} (h : v.reread = .ok w) (hget : v.get? key = some (string s)) :
    w.get? key = some (string s) := get?_of_exact h hget rfl

theorem get?_texts {texts : List String} (h : v.reread = .ok w)
    (hget : v.get? key = some (ofStrings texts)) : w.get? key = some (ofStrings texts) :=
  get?_of_exact h hget (congrArg (Except.map array) (rereadElements_strings texts))

end Fields

/-! ## Measures -/

theorem isFinite_reread {x y : Binary64} (hx : x.isFinite = true) (h : x.reread = .ok y) :
    y.isFinite = true := by
  obtain ⟨s, m, rfl⟩ := Binary64.isFinite_iff.mp hx
  obtain ⟨z, hz⟩ := m.exists_reread
  have hfin := (magnitude_reread_bounds hz).1
  have h : m.reread.map (fun z => if s then -z else z) = .ok y := h
  rw [hz] at h
  obtain rfl := Except.ok.inj h
  cases s with
  | false => exact hfin
  | true => exact Binary64.isFinite_neg hfin

end Json

/--
What is read of a measure: of a finite one the number that its digits are read as, which is finite
too, and of any other one `null`.
-/
inductive Binary64.ReadsAs (x : Binary64) : Json → Prop where
  | number {y : Binary64} : x.isFinite = true → y.isFinite = true → x.reread = .ok y →
      ReadsAs x (.number (.binary y))
  | null : x.isFinite = false → ReadsAs x .null

theorem Binary64.readsAs {x : Binary64} {w : Json} (h : (Json.ofBinary64 x).reread = .ok w) :
    x.ReadsAs w := by
  unfold Json.ofBinary64 at h
  split at h
  · rename_i hfin
    obtain ⟨y, hy⟩ := x.exists_reread
    have h : (x.reread.map JsonNumber.binary).map Json.number = .ok w := h
    rw [hy] at h
    obtain rfl := Except.ok.inj h
    exact .number hfin (Json.isFinite_reread hfin hy) hy
  · rename_i hnot
    obtain rfl := Except.ok.inj h
    exact .null (Bool.eq_false_iff.mpr hnot)

theorem Json.holds_measure {v w : Json} {key : String} {x : Binary64} (h : v.reread = .ok w)
    (hget : v.get? key = some (ofBinary64 x)) : w.Holds key x.ReadsAs :=
  .of_reread h hget fun _ => Binary64.readsAs

end BenchGate
