import BenchGate.Proofs.AtCeiling
import BenchGate.Proofs.WrittenReport

/-!
# The averages of a written summary

The averages of a run are written with the fewest digits that tell them from all other numbers, but
they are read by a rule that is fast and not always exact. An average that is a decimal number of up
to fifteen digits comes back as it was, and then the gate decides on the summary as it did on the
run. Others may come back as a number near by: a run at its ceiling is accepted, and its summary is
then rejected.
-/

namespace BenchGate

open Binary64

attribute [local irreducible] unitsInOne unitsAtTop

/-- The totals in a document are those of the object that it is. -/
theorem Results.totals_eq {doc : Json} {origin : Origin} {totals : Totals}
    (h : ofJson origin doc = ⟨origin, .totals totals⟩) : totals = .ofJson doc := by
  cases doc with
  | object fields =>
      injection h with _ hcontent
      exact (Content.totals.inj hcontent).symm
  | null => cases h
  | bool b => cases h
  | number n => cases h
  | string s => cases h
  | array elements => cases h

namespace Assessment

variable {v : Json} {t : Thresholds} {e : Assessment}

/-- The averages of the totals that are read are those that come back. -/
theorem reads_totals {now : Timestamp} {doc : Json} {time memory : Binary64}
    (h : (e.summary now).ReadsAs doc) (htime : e.current.averageTime.restored = .ok time)
    (hmemory : e.current.averageMemory.restored = .ok memory) (origin : Origin) :
    Results.ofJson origin doc = ⟨origin, .totals ((e.summary now).totalsWith time memory)⟩ := by
  obtain ⟨time', memory', htime', hmemory', hresults⟩ := h.totals
  obtain rfl := Except.ok.inj (htime.symm.trans htime')
  obtain rfl := Except.ok.inj (hmemory.symm.trans hmemory')
  exact hresults origin

theorem ofReported_eq_again {now : Timestamp} {doc : Json} {time memory : Binary64}
    (he : OfDocument v t e) (h : ∀ origin, Results.ofJson origin doc =
      ⟨origin, .totals ((e.summary now).totalsWith time memory)⟩) :
    ofReported (.ofJson .current doc) t = e.again now time memory := by
  rw [h, ← he.thresholds_eq]
  rfl

/-- What is read of the summary of a run whose averages are finite. -/
structure RestoresAverages (e : Assessment) (t : Thresholds) (doc : Json) : Prop where
  results : ∀ origin, Results.ofJson origin doc = ⟨origin, .totals (.ofJson doc)⟩
  time : e.current.averageTime.RestoredAs (Totals.ofJson doc).averageTime
  memory : e.current.averageMemory.RestoredAs (Totals.ofJson doc).averageMemory
  /-- With the averages as they were, the gate decides on the summary as it did on the run. -/
  decision : (Totals.ofJson doc).averageTime = e.current.averageTime →
    (Totals.ofJson doc).averageMemory = e.current.averageMemory →
    (ofReported (.ofJson .current doc) t).isAccepted = e.isAccepted

/--
**Averages come back**, and an average whose digits are read without an error comes back bit for
bit, such as any decimal number of up to fifteen digits with no more than 21 behind the point. Any
other one may be missed by a few roundings.
-/
theorem OfDocument.restoresAverages (he : OfDocument v t e) (hv : v.Fits)
    (hfin : e.current.averageTime.isFinite = true) (now : Timestamp) :
    (Report.full e now).Reads summaryFileName (e.RestoresAverages t) := by
  have hrange := he.inRange hv
  obtain ⟨time, htime, hrestored⟩ := exists_restoredAs hfin hrange.time_nonneg
  obtain ⟨memory, hmemory, hrestored'⟩ :=
    exists_restoredAs hrange.memory_finite hrange.memory_nonneg
  obtain ⟨text, doc, hfile, hfrom, hreads⟩ := he.reads_summary hv now
  have htotals := reads_totals hreads (restored_of_isFinite hfin htime)
    (restored_of_isFinite hrange.memory_finite hmemory)
  have hdoc := Results.totals_eq (htotals .current)
  refine ⟨text, doc, hfile, hfrom, fun origin => hdoc ▸ htotals origin, ?_, ?_, ?_⟩
  · rwa [← hdoc]
  · rwa [← hdoc]
  · rw [← hdoc, ofReported_eq_again he htotals]
    rintro (rfl : time = _) (rfl : memory = _)
    exact (again_agreesWith hv he now).isAccepted

/-- A run of successes that took so many milliseconds each. -/
def runOfTimes (times : List Nat) : Json := .array (times.map fun n => .timed (.natural n))

theorem fits_runOfTimes {times : List Nat} (hlen : times.length < 2 ^ 64)
    (h : ∀ n ∈ times, n < 2 ^ 64) : (runOfTimes times).Fits := by
  refine .array (by rwa [List.length_map]) fun element helement => ?_
  obtain ⟨n, hn, rfl⟩ := List.mem_map.mp helement
  simpa [Json.timed, JsonNumber.Fits] using h n hn

/-- An average of 90.5 comes back, and passes a ceiling that is equal to it. -/
theorem restoresAverages_half :
    let run := runOfTimes [90, 91]
    let t := { Thresholds.standard with
      gate := { Ceilings.standard with time := nearest false 905 10 } }
    (Report.full (ofDocuments run none t) ⟨0, 0⟩).Reads summaryFileName fun doc =>
      (Totals.ofJson doc).averageTime = nearest false 905 10 ∧
        (ofReported (.ofJson .current doc) t).isAccepted = true := by
  intro run t
  have he : OfDocument run t (ofDocuments run none t) := .compared none
  have hfits : run.Fits := fits_runOfTimes (by decide) (by decide)
  obtain ⟨text, doc, hfile, hfrom, hreads⟩ :=
    he.restoresAverages hfits (by decide +kernel) ⟨0, 0⟩
  have htime : (ofDocuments run none t).current.averageTime = nearest false 905 (10 ^ 1) := by
    decide +kernel
  have hmemory : (ofDocuments run none t).current.averageMemory = nearest false 0 (10 ^ 0) := by
    decide +kernel
  have hsame := hreads.time.short false 905 1 (by decide) (by decide) htime
  have hsame' := hreads.memory.short false 0 0 (by decide) (by decide) hmemory
  refine ⟨text, doc, hfile, hfrom, hsame.trans htime, ?_⟩
  rw [hreads.decision hsame hsame']
  decide +kernel

/-- An average of 272 thirds comes back above the ceiling that was equal to it. -/
theorem summary_missesAverage :
    let run := runOfTimes [90, 91, 91]
    let t := { Thresholds.standard with
      gate := { Ceilings.standard with time := nearest false 272 3 } }
    let e := ofDocuments run none t
    t.verify = .ok () ∧ e.current.averageTime = t.gate.time ∧
      e.current.averageTime.isFinite = true ∧ e.current.averageMemory.isFinite = true ∧
      e.isAccepted = true ∧
      (Report.full e ⟨0, 0⟩).Reads summaryFileName fun doc =>
        (Totals.ofJson doc).averageTime ≠ e.current.averageTime ∧
          (ofReported (.ofJson .current doc) t).isAccepted = false := by
  intro run t e
  have he : OfDocument run t e := .compared none
  have hfits : run.Fits := fits_runOfTimes (by decide) (by decide)
  have hfin : e.current.averageTime.isFinite = true := by decide +kernel
  have hfin' : e.current.averageMemory.isFinite = true := by decide +kernel
  obtain ⟨time, htime, hne, habove⟩ : ∃ time, e.current.averageTime.reread = .ok time ∧
      time ≠ e.current.averageTime ∧ t.gate.time < time :=
    ⟨nearest false 9066666666666669 (10 ^ 14), by decide +kernel, by decide +kernel,
      by decide +kernel⟩
  obtain ⟨memory, hmemory⟩ := e.current.averageMemory.exists_reread
  obtain ⟨text, doc, hfile, hfrom, hreads⟩ := he.reads_summary hfits ⟨0, 0⟩
  have htotals := reads_totals hreads (restored_of_isFinite hfin htime)
    (restored_of_isFinite hfin' hmemory)
  refine ⟨by decide +kernel, by decide +kernel, hfin, hfin', by decide +kernel, text, doc, hfile,
    hfrom, ?_, ?_⟩
  · rw [← Results.totals_eq (htotals .current)]
    exact hne
  · rw [ofReported_eq_again he htotals, Bool.eq_false_iff]
    intro haccepted
    exact ((again_isAccepted_iff _ _ _ hfits he).mp haccepted).1.time habove

end Assessment

end BenchGate
