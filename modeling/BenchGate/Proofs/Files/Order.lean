import BenchGate.Files.Discovery

/-!
# The order of paths

Paths are compared component by component, and locations name by name, which is the same order. It
is total, and only lists with the same components come before each other. Different paths can have
the same components, so it matters that sorting is stable: what is left out of a list makes no
difference to the order of the rest.
-/

namespace BenchGate

/-! ## Components -/

namespace Path

namespace Component

variable {a b c : Component}

theorem le_antisymm (hab : a.le b = true) (hba : b.le a = true) : a = b := by
  cases a <;> cases b
  case name.name s t =>
    exact congrArg name (String.le_antisymm (of_decide_eq_true hab) (of_decide_eq_true hba))
  all_goals simp_all [le, rank]

theorem le_trans (hab : a.le b = true) (hbc : b.le c = true) : a.le c = true := by
  cases a <;> cases b <;> cases c
  case name.name.name s t u =>
    exact decide_eq_true (String.le_trans (of_decide_eq_true hab) (of_decide_eq_true hbc))
  all_goals simp_all [le, rank]

theorem le_total (a b : Component) : a.le b = true ∨ b.le a = true := by
  cases a <;> cases b
  case name.name s t =>
    exact (String.le_total s t).imp decide_eq_true decide_eq_true
  all_goals simp [le, rank]

end Component

variable {a b c : List Component} {x y : Component}

theorem cons_le_cons_iff :
    componentsLe (x :: a) (y :: b) = true ↔
      x = y ∧ componentsLe a b = true ∨ x ≠ y ∧ x.le y = true := by
  rw [componentsLe]
  split
  · rename_i heq
    simp [heq]
  · rename_i hne
    simp [hne]

theorem componentsLe_antisymm (hab : componentsLe a b = true) (hba : componentsLe b a = true) :
    a = b := by
  induction a generalizing b with
  | nil =>
      cases b with
      | nil => rfl
      | cons y ys => cases hba
  | cons x xs ih =>
      cases b with
      | nil => cases hab
      | cons y ys =>
          rcases cons_le_cons_iff.mp hab with ⟨heq, hrest⟩ | ⟨hne, hle⟩
          · rcases cons_le_cons_iff.mp hba with ⟨-, hback⟩ | ⟨hne, -⟩
            · rw [heq, ih hrest hback]
            · exact absurd heq.symm hne
          · rcases cons_le_cons_iff.mp hba with ⟨heq, -⟩ | ⟨-, hge⟩
            · exact absurd heq.symm hne
            · exact absurd (Component.le_antisymm hle hge) hne

theorem componentsLe_trans (hab : componentsLe a b = true) (hbc : componentsLe b c = true) :
    componentsLe a c = true := by
  induction a generalizing b c with
  | nil => rfl
  | cons x xs ih =>
      cases b with
      | nil => cases hab
      | cons y ys =>
          cases c with
          | nil => cases hbc
          | cons z zs =>
              rw [cons_le_cons_iff] at hab hbc ⊢
              rcases hab with ⟨rfl, hab⟩ | ⟨hxy, hab⟩
              · rcases hbc with ⟨rfl, hbc⟩ | ⟨hxz, hbc⟩
                · exact .inl ⟨rfl, ih hab hbc⟩
                · exact .inr ⟨hxz, hbc⟩
              · rcases hbc with ⟨rfl, -⟩ | ⟨hyz, hbc⟩
                · exact .inr ⟨hxy, hab⟩
                · refine .inr ⟨?_, Component.le_trans hab hbc⟩
                  rintro rfl
                  exact hxy (Component.le_antisymm hab hbc)

theorem componentsLe_total (a b : List Component) :
    componentsLe a b = true ∨ componentsLe b a = true := by
  induction a generalizing b with
  | nil => exact .inl rfl
  | cons x xs ih =>
      cases b with
      | nil => exact .inr rfl
      | cons y ys =>
          rw [cons_le_cons_iff, cons_le_cons_iff]
          by_cases heq : x = y
          · rcases ih ys with hle | hge
            · exact .inl (.inl ⟨heq, hle⟩)
            · exact .inr (.inl ⟨heq.symm, hge⟩)
          · rcases Component.le_total x y with hle | hge
            · exact .inl (.inr ⟨heq, hle⟩)
            · exact .inr (.inr ⟨Ne.symm heq, hge⟩)

theorem componentsLe_append (common as bs : List Component) :
    componentsLe (common ++ as) (common ++ bs) = componentsLe as bs := by
  induction common with
  | nil => rfl
  | cons c rest ih => rw [List.cons_append, List.cons_append, componentsLe, if_pos rfl, ih]

theorem componentsLe_names (a b : List String) :
    componentsLe (a.map .name) (b.map .name) = Location.le a b := by
  induction a generalizing b with
  | nil => rfl
  | cons x xs ih =>
      cases b with
      | nil => rfl
      | cons y ys =>
          rw [List.map_cons, List.map_cons, componentsLe, Location.le, ih]
          by_cases h : x = y
          · rw [if_pos (congrArg Component.name h), if_pos h]
          · rw [if_neg (fun heq => h (Component.name.inj heq)), if_neg h]
            rfl

end Path

/-! ## Sorting -/

section Sorting

variable {α : Type} {le : α → α → Bool}

/-- A list is split in one way only into what does not pass a test and what does. -/
theorem append_inj_of_test {test : α → Bool} {front front' back back' : List α}
    (hfront : ∀ x ∈ front, test x = false) (hback : ∀ x ∈ back, test x = true)
    (hfront' : ∀ x ∈ front', test x = false) (hback' : ∀ x ∈ back', test x = true)
    (h : front ++ back = front' ++ back') : front = front' ∧ back = back' := by
  have hsplit : ∀ {front back : List α}, (∀ x ∈ front, test x = false) →
      (∀ x ∈ back, test x = true) → (front ++ back).filter test = back := by
    intro front back hfront hback
    have hnone : front.filter test = [] :=
      List.filter_eq_nil_iff.mpr fun x hx => by simp [hfront x hx]
    rw [List.filter_append, hnone, List.nil_append, List.filter_eq_self.mpr hback]
  have hsame : back = back' := by
    rw [← hsplit hfront hback, h, hsplit hfront' hback']
  rw [hsame] at h
  exact ⟨List.append_cancel_right h, hsame⟩

/-- **Sorting is stable**: it makes no difference whether something is left out before or after. -/
theorem filter_mergeSort (htrans : ∀ a b c, le a b = true → le b c = true → le a c = true)
    (htotal : ∀ a b, (le a b || le b a) = true) (keep : α → Bool) (xs : List α) :
    (xs.mergeSort le).filter keep = (xs.filter keep).mergeSort le := by
  induction xs with
  | nil => rw [List.mergeSort_nil, List.filter_nil, List.mergeSort_nil]
  | cons x rest ih =>
      obtain ⟨front, back, hwhole, hrest, hfront⟩ := List.mergeSort_cons htrans htotal x rest
      rw [hrest, List.filter_append] at ih
      rw [hwhole, List.filter_append, List.filter_cons, List.filter_cons]
      split
      · -- in both lists, `x` stands behind what does not come after it
        obtain ⟨front', back', hwhole', hrest', hfront'⟩ :=
          List.mergeSort_cons htrans htotal x (rest.filter keep)
        have hsorted := List.pairwise_mergeSort htrans htotal (x :: rest)
        have hsorted' := List.pairwise_mergeSort htrans htotal (x :: rest.filter keep)
        rw [hwhole] at hsorted
        rw [hwhole'] at hsorted'
        have hback := (List.pairwise_cons.mp (List.pairwise_append.mp hsorted).2.1).1
        have hback' := (List.pairwise_cons.mp (List.pairwise_append.mp hsorted').2.1).1
        obtain ⟨heq, heq'⟩ := append_inj_of_test
          (fun y hy => by simpa using hfront y (List.mem_filter.mp hy).1)
          (fun y hy => hback y (List.mem_filter.mp hy).1)
          (fun y hy => by simpa using hfront' y hy) hback' (ih.trans hrest')
        rw [hwhole', heq, heq']
      · exact ih

end Sorting

theorem Path.filter_mergeSort (keep : Path → Bool) (paths : List Path) :
    (paths.mergeSort Path.le).filter keep = (paths.filter keep).mergeSort Path.le := by
  refine BenchGate.filter_mergeSort ?_ ?_ keep paths
  · intro p q r hpq hqr
    exact componentsLe_trans hpq hqr
  · intro p q
    rw [Bool.or_eq_true]
    exact componentsLe_total _ _

/-! ## Locations -/

namespace Location

theorem le_antisymm {a b : Location} (hab : Location.le a b = true) (hba : Location.le b a = true) :
    a = b := by
  rw [← Path.componentsLe_names] at hab hba
  exact List.map_inj_right (fun _ _ => Path.Component.name.inj) |>.mp
    (Path.componentsLe_antisymm hab hba)

theorem sorted_mergeSort {α : Type} (key : α → Location) (xs : List α) :
    (xs.mergeSort fun x y => Location.le (key x) (key y)).Pairwise
      fun x y => Location.le (key x) (key y) = true := by
  refine List.pairwise_mergeSort ?_ ?_ xs
  · intro x y z hxy hyz
    rw [← Path.componentsLe_names] at hxy hyz ⊢
    exact Path.componentsLe_trans hxy hyz
  · intro x y
    rw [Bool.or_eq_true, ← Path.componentsLe_names, ← Path.componentsLe_names]
    exact Path.componentsLe_total _ _

/-- Lists in the order of a walk with the same members are the same, if no two members have the
same place. -/
theorem eq_of_sorted {α : Type} (key : α → Location) {xs ys : List α}
    (hxs : xs.Pairwise fun x y => Location.le (key x) (key y) = true)
    (hys : ys.Pairwise fun x y => Location.le (key x) (key y) = true)
    (hkey : ∀ x ∈ xs, ∀ y ∈ ys, key x = key y → x = y) (hperm : xs.Perm ys) : xs = ys := by
  refine List.Perm.eq_of_pairwise (fun x y hx hy hxy hyx => hkey x hx y hy ?_) hxs hys hperm
  exact le_antisymm hxy hyx

end Location

end BenchGate
