import BenchGate.Report
import BenchGate.Proofs.Json.RoundTrip
import BenchGate.Proofs.Regating

/-!
# Gating a summary that was written

The gate does not see the summary of a run but its text. Reading the text gives back all of the
summary but the two averages, and those are the only way in which a run that was rejected can be
accepted by its summary:

* an average that overflowed has no numeral; it is written as `null`, which counts as zero;
* a finite one is read from its shortest digits by a rule that may miss it by a few last bits, so an
  average right above its ceiling may come back at the ceiling.

A text that cannot be read, because an average comes back out of range, accepts nothing.
-/

namespace BenchGate

open Binary64

attribute [local irreducible] unitsInOne unitsAtTop

/-! ## A measure that was written -/

/-- A measure as it is found in a document that it was written to. -/
def Binary64.restored (x : Binary64) : Except JsonError Binary64 :=
  if x.isFinite then x.reread else .ok 0

theorem Binary64.restored_of_isFinite {x y : Binary64} (hfin : x.isFinite = true)
    (h : x.reread = .ok y) : x.restored = .ok y := by
  unfold restored
  rw [if_pos hfin, h]

theorem Binary64.restored_of_not_isFinite {x : Binary64} (h : x.isFinite = false) :
    x.restored = .ok 0 := by
  unfold restored
  rw [if_neg (by simp [h])]

theorem Binary64.restored_bounds {x y : Binary64} (h0 : 0 ≤ x) (h : x.restored = .ok y) :
    y.isFinite = true ∧ 0 ≤ y := by
  unfold restored at h
  split at h
  · rename_i hfin
    exact Json.reread_bounds hfin h0 h
  · obtain rfl := Except.ok.inj h
    exact ⟨isFinite_zero, ofNat_nonneg 0⟩

theorem Json.toMeasure_reread {x : Binary64} (h0 : 0 ≤ x) :
    (ofBinary64 x).reread.map (fun v => toMeasure (some v)) = x.restored := by
  unfold Binary64.restored ofBinary64
  split
  · rename_i hfin
    show Except.map _ (Except.map number (Except.map JsonNumber.binary x.reread)) = _
    cases hread : x.reread with
    | error cause => rfl
    | ok y =>
        obtain ⟨hy, hy0⟩ := reread_bounds hfin h0 hread
        have hmeasure : toMeasure (some (number (.binary y))) = y := if_pos ⟨hy, hy0⟩
        exact congrArg Except.ok hmeasure
  · rfl

/-! ## The text of a summary -/

theorem Json.rereadElements_strings (texts : List String) :
    rereadElements (texts.map string) = .ok (texts.map string) := by
  induction texts with
  | nil => rfl
  | cons text texts ih =>
      rw [List.map_cons, rereadElements, ih]
      rfl

theorem Json.readable_ofStrings (texts : List String) (depth : Nat) :
    Readable (depth + 1) (ofStrings texts) := by
  refine .array fun e he => ?_
  obtain ⟨text, -, rfl⟩ := List.mem_map.mp he
  exact .string text

namespace Summary

/-- Only the averages can change on the way through a text. -/
theorem reread_toJsonWith (s : Summary) (time memory : Json) :
    (s.toJsonWith time memory).reread = (do
      let time ← time.reread
      let memory ← memory.reread
      return s.toJsonWith time memory) := by
  have htexts := Json.rereadElements_strings s.recommendations
  unfold toJsonWith Json.ofStrings Json.ofNat
  simp only [Json.reread, Json.rereadFields, htexts, JsonNumber.reread]
  cases time.reread with
  | error cause => rfl
  | ok time =>
      cases memory.reread with
      | error cause => rfl
      | ok memory => rfl

theorem readable_ofBinary64 (x : Binary64) (depth : Nat) :
    Json.Readable depth (.ofBinary64 x) := by
  unfold Json.ofBinary64
  split
  · exact .number (by assumption)
  · exact .null

theorem readable_toJson {s : Summary} (hs : s.successful < 2 ^ 64) (hf : s.failed < 2 ^ 64)
    (ht : s.total < 2 ^ 64) : Json.Readable Json.maxDepth s.toJson := by
  refine .object ?_
  simp only [List.forall_mem_cons, List.not_mem_nil, false_implies, implies_true, and_true]
  exact ⟨.string _, readable_ofBinary64 _ _, readable_ofBinary64 _ _, .bool _, .number hs,
    .number hf, .number ht, Json.readable_ofStrings _ _, .string _⟩

end Summary

/-! ## The gate on a written summary -/

/-- The text of the summary in a report, if it has one. -/
def Report.summaryText? (report : Report) : Option String :=
  (report.find? fun file => file.path = .ofText summaryFileName).map ReportFile.content

theorem Report.summaryText?_full (e : Assessment) (now : Timestamp) :
    (full e now).summaryText? = some (e.summary now).toJson.render := by
  have hcomparison : ¬ Path.ofText comparisonFileName = Path.ofText summaryFileName := by decide
  have hcomparisonText : ¬ Path.ofText comparisonTextFileName = Path.ofText summaryFileName := by
    decide
  unfold summaryText? full ofComparison
  cases e.comparison with
  | none => simp
  | some c => simp [hcomparison, hcomparisonText]

/-- The gate on a summary that was written to a text. -/
def Assessment.ofSummaryText (text : String) (t : Thresholds) : Except JsonError Assessment :=
  (Json.parse text).map fun v => ofReported (.ofJson .current v) t

/-- A report from whose summary the gate accepts the run. -/
def Report.AcceptedAgain (report : Report) (t : Thresholds) : Prop :=
  ∃ text e, report.summaryText? = some text ∧ Assessment.ofSummaryText text t = .ok e ∧
    e.isAccepted = true

namespace Assessment

variable {v : Json} {t : Thresholds} {e : Assessment}

theorem OfDocument.readable_summary (he : OfDocument v t e) (hv : v.Fits) (now : Timestamp) :
    Json.Readable Json.maxDepth (e.summary now).toJson := by
  obtain ⟨comparison, detected, rfl⟩ := he.exists_judge
  have htotal := Results.total_lt hv .current
  have hfailed := Results.failed_le_total (.ofJson .current v)
  have hsucc := Metrics.successful_le_total (.ofJson .current v)
  rw [Metrics.ofResults_total] at hsucc
  have heq := Metrics.ofResults_total (.ofJson .current v)
  exact Summary.readable_toJson (Nat.lt_of_le_of_lt hsucc htotal)
    (Nat.lt_of_le_of_lt hfailed htotal) (Nat.lt_of_le_of_lt (Nat.le_of_eq heq) htotal)

/-- **What the gate makes of a written summary**: the run with its averages as they come back. -/
theorem ofSummaryText_summary (hv : v.Fits) (he : OfDocument v t e) (now : Timestamp) :
    ofSummaryText (e.summary now).toJson.render t = (do
      let time ← e.current.averageTime.restored
      let memory ← e.current.averageMemory.restored
      return e.again now time memory) := by
  have hrange := he.inRange hv
  have htime := Json.toMeasure_reread hrange.time_nonneg
  have hmemory := Json.toMeasure_reread hrange.memory_nonneg
  unfold ofSummaryText
  rw [Json.parse_render (he.readable_summary hv now), Summary.toJson_eq, Summary.reread_toJsonWith,
    ← htime, ← hmemory, ← he.thresholds_eq]
  show Except.map _ (Json.reread (.ofBinary64 e.current.averageTime) >>= fun time =>
    Json.reread (.ofBinary64 e.current.averageMemory) >>= fun memory => _) = _
  cases (Json.ofBinary64 e.current.averageTime).reread with
  | error cause => rfl
  | ok time =>
      cases (Json.ofBinary64 e.current.averageMemory).reread with
      | error cause => rfl
      | ok memory =>
          refine congrArg Except.ok ?_
          show ofReported (.ofJson .current ((e.summary now).toJsonWith time memory)) _ = _
          rw [Summary.ofJson_toJsonWith]
          rfl

theorem full_acceptedAgain_iff (hv : v.Fits) (he : OfDocument v t e) (now : Timestamp) :
    (Report.full e now).AcceptedAgain t ↔
      ∃ time memory, e.current.averageTime.restored = .ok time ∧
        e.current.averageMemory.restored = .ok memory ∧
        (e.again now time memory).isAccepted = true := by
  have hgate := ofSummaryText_summary hv he now
  constructor
  · -- an average that cannot be read back leaves no verdict at all
    rintro ⟨text, again, htext, hagain, haccepted⟩
    rw [Report.summaryText?_full] at htext
    rw [← Option.some.inj htext, hgate] at hagain
    cases htime : e.current.averageTime.restored with
    | error cause =>
        rw [htime] at hagain
        exact absurd hagain (by simp [bind, Except.bind])
    | ok time =>
        cases hmemory : e.current.averageMemory.restored with
        | error cause =>
            rw [htime, hmemory] at hagain
            exact absurd hagain (by simp [bind, Except.bind])
        | ok memory =>
            rw [htime, hmemory] at hagain
            obtain rfl := Except.ok.inj hagain
            exact ⟨time, memory, rfl, rfl, haccepted⟩
  · rintro ⟨time, memory, htime, hmemory, haccepted⟩
    rw [htime, hmemory] at hgate
    exact ⟨_, _, Report.summaryText?_full e now, hgate, haccepted⟩

/-- Averages that come back as they were let no rejected run through. -/
theorem not_acceptedAgain_of_restored (hv : v.Fits) (he : OfDocument v t e) (now : Timestamp)
    (htime : e.current.averageTime.restored = .ok e.current.averageTime)
    (hmemory : e.current.averageMemory.restored = .ok e.current.averageMemory)
    (hrejected : e.isAccepted = false) : ¬ (Report.full e now).AcceptedAgain t := by
  rw [full_acceptedAgain_iff hv he]
  rintro ⟨time, memory, ht, hm, hagain⟩
  obtain rfl := Except.ok.inj (htime.symm.trans ht)
  obtain rfl := Except.ok.inj (hmemory.symm.trans hm)
  rw [(again_agreesWith hv he now).isAccepted, hrejected] at hagain
  exact Bool.noConfusion hagain

/--
**The rejected runs that are accepted by their written summary** are those that nothing but an
average speaks against, when both averages are at most their ceilings as they come back.
-/
theorem rejected_acceptedAgain_iff {current : Json} (hv : current.Fits) (baseline : Option Json)
    (ht : t.verify = .ok ()) (now : Timestamp) :
    let e := ofDocuments current baseline t
    e.isAccepted = false ∧ (Report.full e now).AcceptedAgain t ↔
      (e.failure? = none ∧ e.regressionDetected = false ∧
        e.current.failureRate ≤ t.gate.failureRate) ∧
      (t.gate.time < e.current.averageTime ∨ t.gate.memory < e.current.averageMemory) ∧
      ∃ time memory, e.current.averageTime.restored = .ok time ∧
        e.current.averageMemory.restored = .ok memory ∧
        time ≤ t.gate.time ∧ memory ≤ t.gate.memory := by
  intro e
  have he : OfDocument current t e := .compared baseline
  have hm := he.inRange hv
  have hr := Thresholds.inRange_of_verify ht
  have hfailure : e.failure? = none ↔ 0 < e.current.total ∧ 0 < e.current.successful :=
    Status.failure?_eq_none_iff _ _
  -- what comes back is in range as well, so the gate compares it with the ceilings
  have hagain : ∀ {time memory : Binary64}, e.current.averageTime.restored = .ok time →
      e.current.averageMemory.restored = .ok memory →
      ((e.again now time memory).isAccepted = true ↔
        ((1 ≤ e.current.total ∧ 1 ≤ e.current.successful) ∧ time ≤ t.gate.time ∧
          memory ≤ t.gate.memory ∧ e.current.failureRate ≤ t.gate.failureRate) ∧
        e.regressionDetected = false) := by
    intro time memory htime hmemory
    have hrange : Metrics.InRange
        { e.current with averageTime := time, averageMemory := memory } :=
      { hm with
        time_nonneg := (restored_bounds hm.time_nonneg htime).2
        memory_nonneg := (restored_bounds hm.memory_nonneg hmemory).2
        memory_finite := (restored_bounds hm.memory_nonneg hmemory).1 }
    rw [again_isAccepted_iff now time memory hv he, Metrics.passes_iff hrange hr]
  rw [full_acceptedAgain_iff hv he, hfailure]
  constructor
  · rintro ⟨hrejected, time, memory, htime, hmemory, haccepted⟩
    obtain ⟨⟨hcounts, hbelow, hbelow', hrate⟩, hflag⟩ := (hagain htime hmemory).mp haccepted
    refine ⟨⟨hcounts, hflag, hrate⟩, ?_, time, memory, htime, hmemory, hbelow, hbelow'⟩
    -- everything else passed the second time, so it passed the first time
    by_cases hslow : t.gate.time < e.current.averageTime
    · exact .inl hslow
    by_cases hlarge : t.gate.memory < e.current.averageMemory
    · exact .inr hlarge
    have hrate' := (not_lt_iff hr.failureRateCeiling.1.2.1 hm.rate_nonneg.2.1).mpr hrate
    have hfirst := (isAccepted_iff he).mpr ⟨⟨hcounts.1, hcounts.2, hslow, hlarge, hrate'⟩, hflag⟩
    exact absurd (hrejected.symm.trans hfirst) Bool.false_ne_true
  · -- the average that is above its ceiling rejects the run, and comes back below it
    rintro ⟨⟨hcounts, hflag, hrate⟩, habove, time, memory, htime, hmemory, hbelow, hbelow'⟩
    refine ⟨?_, time, memory, htime, hmemory,
      (hagain htime hmemory).mpr ⟨⟨hcounts, hbelow, hbelow', hrate⟩, hflag⟩⟩
    rw [Bool.eq_false_iff]
    intro hfirst
    obtain ⟨hpasses, -⟩ := (isAccepted_iff he).mp hfirst
    rcases habove with h | h
    · exact hpasses.time h
    · exact hpasses.memory h

/-- A run that only failed stays rejected. -/
theorem not_acceptedAgain_allFailed :
    ¬ (Report.full (ofDocuments (.array [.null]) none .standard) ⟨0, 0⟩).AcceptedAgain
      .standard := by
  have hfits : (Json.array [.null]).Fits := by simp
  intro h
  have hexact := rejected_acceptedAgain_iff hfits none Thresholds.standard_verify ⟨0, 0⟩
  have hfailed : (ofDocuments (.array [.null]) none .standard).failure? ≠ none := by decide +kernel
  exact hfailed (hexact.mp ⟨by decide +kernel, h⟩).1.1

/-- A successful record that took this long. -/
def recordOfTime (time : Binary64) : Json :=
  .object [("success", .bool true),
    ("metrics", .object [("executionTime", .number (.binary time))])]

/-- Two times of `1e308` add up past the largest number, and the summary says nothing of it. -/
theorem overflow_acceptedAgain :
    let slow := recordOfTime (Json.powerOfTen 308)
    let e := ofDocuments (.array [slow, slow]) none .standard
    e.isAccepted = false ∧ (Report.full e ⟨0, 0⟩).AcceptedAgain .standard := by
  intro slow e
  have htime : (Json.powerOfTen 308).isFinite = true := Json.isFinite_powerOfTen (Nat.le_refl 308)
  have hfits : (Json.array [slow, slow]).Fits := by
    simpa [slow, recordOfTime, JsonNumber.Fits] using htime
  -- the average time is infinite, so only the memory has digits to read back
  have hmemory : e.current.averageMemory = zero false := by decide +kernel
  have hzero : (zero false).restored = .ok 0 := congrArg Except.ok (by decide +kernel)
  refine ⟨by decide +kernel, (full_acceptedAgain_iff hfits (.compared none) ⟨0, 0⟩).mpr
    ⟨0, 0, restored_of_not_isFinite (by decide +kernel), ?_, by decide +kernel⟩⟩
  show e.current.averageMemory.restored = .ok 0
  rw [hmemory, hzero]

end Assessment

end BenchGate
