import BenchGate.Proofs.Layering
import BenchGate.Proofs.Promotion

/-!
# What flags can mend in a configuration

The last layer wins, but only among layers that are in range. A configuration file is held against
the bounds before any flag is looked at. So a file that is out of range is refused, for the same
fault whatever the flags are, and also if a flag would replace the value at fault.

Over a file that is in range, flags replace what they name. No bound ties one threshold to another,
so the result is in range exactly if the flags are.
-/

namespace BenchGate

open Binary64

attribute [local irreducible] unitsInOne unitsAtTop

namespace Overrides

/-- Flags in range, as far as they are given. -/
structure Bounded (o : Overrides) : Prop where
  amounts : ∀ flag ∈ [o.time, o.memory, o.failureRate, o.maxTime, o.maxMemory],
    ∀ x, flag = some x → x.isFinite = true ∧ 0 ≤ x
  share : ∀ x, o.maxFailureRate = some x → 0 ≤ x ∧ x ≤ 1

/-- Over a value that has a property, what has to have it is the flag. -/
theorem getD_iff {p : Binary64 → Prop} {x : Binary64} (h : p x) (flag : Option Binary64) :
    p (flag.getD x) ↔ ∀ value, flag = some value → p value := by
  cases flag with
  | none => simp [h]
  | some value => simp

variable {o : Overrides} {files : FileTree} {path : Path} {t : Thresholds}

/-- **Over thresholds in range, the flags decide.** -/
theorem bounded_onto_iff (ht : t.Bounded) (o : Overrides) : (o.onto t).Bounded ↔ o.Bounded := by
  have hamounts := ht.amounts
  simp only [List.forall_mem_cons, List.not_mem_nil, false_implies, implies_true, and_true]
    at hamounts
  obtain ⟨htime, hmemory, hrate, hmaxTime, hmaxMemory⟩ := hamounts
  have hamount (flag : Option Binary64) {x : Binary64} (h : x.isFinite = true ∧ 0 ≤ x) :=
    getD_iff (p := fun x => x.isFinite = true ∧ 0 ≤ x) h flag
  have hflags : (∀ x ∈ [(o.onto t).regression.time, (o.onto t).regression.memory,
      (o.onto t).regression.failureRate, (o.onto t).gate.time, (o.onto t).gate.memory],
        x.isFinite = true ∧ 0 ≤ x) ↔
      ∀ flag ∈ [o.time, o.memory, o.failureRate, o.maxTime, o.maxMemory],
        ∀ x, flag = some x → x.isFinite = true ∧ 0 ≤ x := by
    simp only [List.forall_mem_cons, List.not_mem_nil, false_implies, implies_true, and_true]
    exact and_congr (hamount o.time htime) (and_congr (hamount o.memory hmemory)
      (and_congr (hamount o.failureRate hrate) (and_congr (hamount o.maxTime hmaxTime)
        (hamount o.maxMemory hmaxMemory))))
  have hshare := getD_iff (p := fun x => 0 ≤ x ∧ x ≤ 1) ht.share o.maxFailureRate
  exact ⟨fun h => ⟨hflags.mp h.amounts, hshare.mp h.share⟩,
    fun h => ⟨hflags.mpr h.amounts, hshare.mpr h.share⟩⟩

/-- A configuration that can be read is held against the bounds, then with the flags again. -/
theorem thresholds_of_readConfig (hconfig : o.config = some path)
    (hread : Thresholds.readConfig files path = .ok t) :
    o.thresholds files = t.accept >>= fun t => (o.onto t).accept := by
  unfold thresholds base
  rw [hconfig]
  dsimp only
  unfold Thresholds.ofConfig
  rw [hread, ok_bind]

/--
**Flags decide only over a configuration that is in range.** Let a configuration file be read as
some thresholds. There are thresholds to measure against exactly if those of the file and those
under the flags are both in range, and then they are the latter. Over a file in range that is so for
exactly the flags that are in range themselves. A file out of range is refused for a fault of its
own, the same one whatever the flags are.
-/
theorem thresholds_over_config (hconfig : o.config = some path)
    (hread : Thresholds.readConfig files path = .ok t) :
    (∀ r, o.thresholds files = .ok r ↔ (t.Bounded ∧ (o.onto t).Bounded) ∧ r = o.onto t) ∧
      (t.Bounded → ((o.onto t).Bounded ↔ o.Bounded)) ∧
      (¬ t.Bounded → ∃ fault, t.verify = .error fault ∧
        ∀ flags : Overrides, flags.config = some path →
          flags.thresholds files = .error (.invalid fault)) := by
  refine ⟨fun r => ?_, fun ht => bounded_onto_iff ht o, fun hunbounded => ?_⟩
  · rw [thresholds_of_readConfig hconfig hread, ← Thresholds.verify_eq_ok_iff_bounded,
      ← Thresholds.verify_eq_ok_iff_bounded]
    constructor
    · intro h
      obtain ⟨accepted, hown, hflagged⟩ := exists_ok_of_bind h
      obtain ⟨hverify, rfl⟩ := Thresholds.accept_eq_ok_iff.mp hown
      obtain ⟨hflags, hresult⟩ := Thresholds.accept_eq_ok_iff.mp hflagged
      exact ⟨⟨hverify, hflags⟩, hresult.symm⟩
    · rintro ⟨⟨hverify, hflags⟩, rfl⟩
      rw [Thresholds.accept_eq_ok_iff.mpr ⟨hverify, rfl⟩, ok_bind]
      exact Thresholds.accept_eq_ok_iff.mpr ⟨hflags, rfl⟩
  · cases hverify : t.verify with
    | ok u => exact absurd ((Thresholds.verify_eq_ok_iff_bounded t).mp hverify) hunbounded
    | error fault =>
        refine ⟨fault, rfl, fun flags hflags => ?_⟩
        rw [thresholds_of_readConfig hflags hread]
        unfold Thresholds.accept
        rw [hverify]
        rfl

/-- A configuration of nothing but the ceiling on failures. -/
def ceilingText (value : String) : String :=
  "\x7b\"gate\":\x7b\"maxFailureRate\":" ++ value ++ "\x7d\x7d"

/-- The standard thresholds with another ceiling on failures. -/
def withCeiling (value : Binary64) : Thresholds :=
  { Thresholds.standard with gate := { Ceilings.standard with failureRate := value } }

/-- A ceiling on failures of a half, raised to one by its flag. -/
theorem thresholds_over_config_raised :
    let files := FileTree.ofTexts [("c.json", ceilingText "0.5")]
    let o : Overrides := { config := some (.ofText "c.json"), maxFailureRate := some 1 }
    o.thresholds files = .ok (withCeiling 1) := by
  intro files o
  have hread : Thresholds.readConfig files (.ofText "c.json") =
      .ok (withCeiling (.nearest false 1 2)) := eq_ok_of_toOption (by decide +kernel)
  obtain ⟨hok, hflags, -⟩ := thresholds_over_config (o := o) rfl hread
  have hfile : (withCeiling (.nearest false 1 2)).Bounded :=
    (Thresholds.verify_eq_ok_iff_bounded _).mp (by decide +kernel)
  have hgiven : o.Bounded := by
    refine ⟨by simp [o], fun x hx => ?_⟩
    obtain rfl : 1 = x := Option.some.inj hx
    exact ⟨by decide +kernel, by decide +kernel⟩
  exact (hok _).mpr ⟨⟨hfile, (hflags hfile).mpr hgiven⟩, rfl⟩

/-- A ceiling on failures of two is refused, though its flag would set it to a half. -/
theorem thresholds_out_of_range_masked :
    let files := FileTree.ofTexts [("c.json", ceilingText "2")]
    let o : Overrides :=
      { config := some (.ofText "c.json"), maxFailureRate := some (.nearest false 1 2) }
    Thresholds.readConfig files (.ofText "c.json") = .ok (withCeiling 2) ∧
      (o.onto (withCeiling 2)).verify = .ok () ∧
      o.thresholds files = .error (.invalid (.notAShare 2)) := by
  intro files o
  have hread : Thresholds.readConfig files (.ofText "c.json") = .ok (withCeiling 2) :=
    eq_ok_of_toOption (by decide +kernel)
  have hown : (withCeiling 2).verify = .error (.notAShare 2) := by decide +kernel
  refine ⟨hread, by decide +kernel, ?_⟩
  rw [thresholds_of_readConfig rfl hread]
  unfold Thresholds.accept
  rw [hown]
  rfl

end Overrides

end BenchGate
