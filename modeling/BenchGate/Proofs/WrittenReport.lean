import BenchGate.Proofs.Json.Lossless
import BenchGate.Proofs.Loading
import BenchGate.Proofs.Report
import BenchGate.Proofs.Suites

/-!
# Reading a report

The documents of a report are read by other programs, and the summary by this one. Whatever texts
the records hold, every document can be read, and it says what was written: counts, flags and texts
are the same, the suites are found under their names, and only a finite measure may have become
another number. A measure that is not finite is `null`.

That a document can be read takes three things: its counts fit in 64 bits because the results were
read from documents, its nesting does not depend on the results, and none of its measures comes
back out of range.
-/

namespace BenchGate

attribute [local irreducible] unitsInOne unitsAtTop

/-! ## What the documents say -/

/-- What is read of the statistics of a suite. -/
structure SuiteFigures.ReadsAs (s : SuiteFigures) (v : Json) : Prop where
  total : v.get? "total_benchmarks" = some (.ofNat s.total)
  successful : v.get? "successful_benchmarks" = some (.ofNat s.successful)
  successRate : v.Holds "success_rate" s.successRate.ReadsAs
  averageTime : v.Holds "avg_execution_time" s.averageTime.ReadsAs

/-- What is read of the statistics of a run. -/
structure Statistics.ReadsAs (s : Statistics) (v : Json) : Prop where
  total : v.get? "total_benchmarks" = some (.ofNat s.total)
  successful : v.get? "successful_benchmarks" = some (.ofNat s.successful)
  failed : v.get? "failed_benchmarks" = some (.ofNat s.failed)
  successRate : v.Holds "success_rate" s.successRate.ReadsAs
  averageTime : v.Holds "avg_execution_time" s.averageTime.ReadsAs
  averageMemory : v.Holds "avg_memory_usage" s.averageMemory.ReadsAs
  suites : v.get? "suites" = some (.ofStrings s.suites)
  platforms : v.get? "platforms" = some (.ofStrings s.platforms)
  toolVersions : v.get? "tool_versions" = some (.ofStrings s.toolVersions)
  /-- The suites are found under their names, and there is nothing else. -/
  perSuite : v.Holds "per_suite" fun w => w.keys? = some s.suites ∧
    ∀ suite figures, (suite, figures) ∈ s.perSuite → w.Holds suite figures.ReadsAs

/-- What is read of a summary. -/
structure Summary.ReadsAs (s : Summary) (v : Json) : Prop where
  /-- As results, it is the totals that were written, with the averages as they come back. -/
  totals : ∃ time memory, s.averageTime.restored = .ok time ∧
    s.averageMemory.restored = .ok memory ∧
    ∀ origin, Results.ofJson origin v = ⟨origin, .totals (s.totalsWith time memory)⟩
  status : v.get? "status" = some (.string s.status.word)
  timestamp : v.get? "timestamp" = some (.string s.timestamp.toText)
  averageTime : v.Holds "avg_execution_time" s.averageTime.ReadsAs
  averageMemory : v.Holds "memory_usage" s.averageMemory.ReadsAs

/-- What is read of metrics. -/
structure Metrics.ReadsAs (m : Metrics) (v : Json) : Prop where
  averageTime : v.Holds "execution_time" m.averageTime.ReadsAs
  averageMemory : v.Holds "memory_usage" m.averageMemory.ReadsAs
  failureRate : v.Holds "failure_rate" m.failureRate.ReadsAs
  successful : v.get? "successful_benchmarks" = some (.ofNat m.successful)
  total : v.get? "total_benchmarks" = some (.ofNat m.total)

/-- What is read of the changes of a comparison. -/
structure Regression.ChangesReadAs (r : Regression) (v : Json) : Prop where
  time : v.Holds "execution_time_percent" r.timeChange.ReadsAs
  memory : v.Holds "memory_usage_percent" r.memoryChange.ReadsAs
  failureRate : v.Holds "failure_rate_absolute" r.failureRateChange.ReadsAs

/-- What is read of the flags of a comparison. -/
structure Regression.FlagsReadAs (r : Regression) (v : Json) : Prop where
  time : v.get? "execution_time" = some (.bool r.timeRegressed)
  memory : v.get? "memory_usage" = some (.bool r.memoryRegressed)
  failureRate : v.get? "failure_rate" = some (.bool r.failureRateRegressed)

/-- What is read of a comparison. -/
structure Comparison.ReadsAs (c : Comparison) (v : Json) : Prop where
  baseline : v.Holds "baseline" c.baseline.ReadsAs
  current : v.Holds "current" c.current.ReadsAs
  changes : v.Holds "changes" c.regression.ChangesReadAs
  regressions : v.Holds "regressions" c.regression.FlagsReadAs

/-! ## What comes back -/

section Documents

open Json

variable {w : Json}

theorem SuiteFigures.readsAs {s : SuiteFigures} (h : s.toJson.reread = .ok w) : s.ReadsAs w where
  total := get?_count h rfl
  successful := get?_count h rfl
  successRate := holds_measure h rfl
  averageTime := holds_measure h rfl

theorem Statistics.readsAs {s : Statistics} (hnodup : s.suites.Nodup)
    (h : s.toJson.reread = .ok w) : s.ReadsAs w where
  total := get?_count h rfl
  successful := get?_count h rfl
  failed := get?_count h rfl
  successRate := holds_measure h rfl
  averageTime := holds_measure h rfl
  averageMemory := holds_measure h rfl
  suites := get?_texts h rfl
  platforms := get?_texts h rfl
  toolVersions := get?_texts h rfl
  perSuite := by
    let fields := s.perSuite.map fun entry => (entry.1, entry.2.toJson)
    have hnames : fields.map Prod.fst = s.suites := by
      rw [List.map_map]
      rfl
    have hget : s.toJson.get? "per_suite" = some (.object fields) := rfl
    refine .of_reread h hget fun b hb => ⟨keys?_of_reread hb (congrArg some hnames), ?_⟩
    intro suite figures hmem
    have hfield : (suite, figures.toJson) ∈ fields := List.mem_map.mpr ⟨_, hmem, rfl⟩
    exact .of_reread hb (get?_of_mem (by rwa [hnames]) hfield) fun _ => SuiteFigures.readsAs

theorem Binary64.restored_of_reread {x : Binary64} (h0 : 0 ≤ x)
    (h : (ofBinary64 x).reread = .ok w) : x.restored = .ok (toMeasure (some w)) := by
  rw [← toMeasure_reread h0, h]
  rfl

theorem Summary.readsAs {s : Summary} (htime : 0 ≤ s.averageTime) (hmemory : 0 ≤ s.averageMemory)
    (h : s.toJson.reread = .ok w) : s.ReadsAs w where
  totals := by
    rw [toJson_eq, reread_toJsonWith] at h
    obtain ⟨time, ht, h⟩ := exists_ok_of_bind h
    obtain ⟨memory, hm, h⟩ := exists_ok_of_bind h
    obtain rfl := Except.ok.inj h
    exact ⟨_, _, Binary64.restored_of_reread htime ht,
      Binary64.restored_of_reread hmemory hm, s.ofJson_toJsonWith time memory⟩
  status := get?_text h rfl
  timestamp := get?_text h rfl
  averageTime := holds_measure h rfl
  averageMemory := holds_measure h rfl

theorem Metrics.readsAs {m : Metrics} (h : m.toJson.reread = .ok w) : m.ReadsAs w where
  averageTime := holds_measure h rfl
  averageMemory := holds_measure h rfl
  failureRate := holds_measure h rfl
  successful := get?_count h rfl
  total := get?_count h rfl

theorem Comparison.readsAs {c : Comparison} (h : c.toJson.reread = .ok w) : c.ReadsAs w where
  baseline := .of_reread h rfl fun _ => Metrics.readsAs
  current := .of_reread h rfl fun _ => Metrics.readsAs
  changes := .of_reread h rfl fun _ hb =>
    { time := holds_measure hb rfl
      memory := holds_measure hb rfl
      failureRate := holds_measure hb rfl }
  regressions := .of_reread h rfl fun _ hb =>
    { time := get?_flag hb rfl
      memory := get?_flag hb rfl
      failureRate := get?_flag hb rfl }

end Documents

/-! ## Counts that fit -/

/-- A suite counts no more benchmarks than the run has. -/
structure SuiteFigures.CountsWithin (s : SuiteFigures) (total : Nat) : Prop where
  total_le : s.total ≤ total
  successful_le : s.successful ≤ total

theorem SuiteFigures.CountsWithin.readable {s : SuiteFigures} {total depth : Nat}
    (h : s.CountsWithin total) (hlt : total < 2 ^ 64) : Json.Readable (depth + 1) s.toJson := by
  refine .object ?_
  simp only [List.forall_mem_cons, List.not_mem_nil, false_implies, implies_true, and_true]
  exact ⟨.number (Nat.lt_of_le_of_lt h.total_le hlt),
    .number (Nat.lt_of_le_of_lt h.successful_le hlt), Summary.readable_ofBinary64 _ _,
    Summary.readable_ofBinary64 _ _⟩

namespace Statistics

/-- Neither the run nor a suite counts more benchmarks than there are. -/
structure CountsWithin (s : Statistics) (total : Nat) : Prop where
  total_le : s.total ≤ total
  successful_le : s.successful ≤ total
  failed_le : s.failed ≤ total
  suite : ∀ entry ∈ s.perSuite, entry.2.CountsWithin total

theorem CountsWithin.readable {s : Statistics} {total : Nat} (h : s.CountsWithin total)
    (hlt : total < 2 ^ 64) : Json.Readable Json.maxDepth s.toJson := by
  refine .object ?_
  simp only [List.forall_mem_cons, List.not_mem_nil, false_implies, implies_true, and_true]
  refine ⟨.number (Nat.lt_of_le_of_lt h.total_le hlt),
    .number (Nat.lt_of_le_of_lt h.successful_le hlt),
    .number (Nat.lt_of_le_of_lt h.failed_le hlt), Summary.readable_ofBinary64 _ _,
    Summary.readable_ofBinary64 _ _, Summary.readable_ofBinary64 _ _,
    Json.readable_ofStrings _ _, Json.readable_ofStrings _ _, Json.readable_ofStrings _ _,
    .object fun field hfield => ?_⟩
  obtain ⟨entry, hentry, rfl⟩ := List.mem_map.mp hfield
  exact (h.suite entry hentry).readable hlt

/-- The statistics of any results, of which totals have no suites. -/
theorem countsWithin_ofResults (results : Results) :
    (ofResults results (.ofResults results)).CountsWithin results.total := by
  have htotal := Metrics.ofResults_total results
  have hsuccessful := Metrics.successful_le_total results
  have hfailed := results.failed_le_total
  have hrecords : results.records.length ≤ results.total := by
    obtain ⟨origin, content⟩ := results
    cases content with
    | records records => exact Nat.le_refl _
    | totals totals => exact Nat.zero_le _
    | empty => exact Nat.zero_le _
  refine ⟨Nat.le_of_eq htotal, ?_, hfailed, fun entry hentry => ?_⟩
  · unfold ofResults
    dsimp only
    split <;> omega
  · -- the suites share the records out
    have hdescribes := ((mem_perSuite_iff results.origin (.ofResults results)).mp hentry).2
    have hsuite : (recordsOf entry.1 results.records).length ≤ results.total :=
      Nat.le_trans (List.length_filter_le _ _) hrecords
    constructor
    · rw [hdescribes.total]
      exact hsuite
    · rw [hdescribes.successful]
      exact Nat.le_trans List.countP_le_length hsuite

end Statistics

theorem Metrics.readable_toJson {m : Metrics} {depth : Nat} (hs : m.successful ≤ m.total)
    (ht : m.total < 2 ^ 64) : Json.Readable (depth + 1) m.toJson := by
  refine .object ?_
  simp only [List.forall_mem_cons, List.not_mem_nil, false_implies, implies_true, and_true]
  exact ⟨Summary.readable_ofBinary64 _ _, Summary.readable_ofBinary64 _ _,
    Summary.readable_ofBinary64 _ _, .number (Nat.lt_of_le_of_lt hs ht), .number ht⟩

theorem Comparison.readable_toJson {c : Comparison}
    (hbaseline : ∀ depth, Json.Readable (depth + 1) c.baseline.toJson)
    (hcurrent : ∀ depth, Json.Readable (depth + 1) c.current.toJson) :
    Json.Readable Json.maxDepth c.toJson := by
  refine .object ?_
  simp only [List.forall_mem_cons, List.not_mem_nil, false_implies, implies_true, and_true]
  refine ⟨hbaseline _, hcurrent _, .object ?_, .object ?_⟩ <;>
    simp only [List.forall_mem_cons, List.not_mem_nil, false_implies, implies_true, and_true]
  · exact ⟨Summary.readable_ofBinary64 _ _, Summary.readable_ofBinary64 _ _,
      Summary.readable_ofBinary64 _ _⟩
  · exact ⟨.bool _, .bool _, .bool _⟩

/-! ## The report of an assessment -/

/-- A document that is read from a text, in whatever file the text is found. -/
structure Json.ReadFrom (v : Json) (text : String) : Prop where
  parse_eq : parse text = .ok v
  readJson_eq : ∀ {files : FileTree} {path : Path}, files.readFile path = .ok text.toUTF8 →
    files.readJson path = .ok v

theorem Json.exists_readFrom {v : Json} (h : Readable maxDepth v) :
    ∃ w, w.ReadFrom v.render ∧ v.reread = .ok w := by
  obtain ⟨w, hparse, hread⟩ := exists_parse h
  have hutf8 : String.fromUTF8? v.render.toUTF8 = some v.render :=
    dif_pos (c := v.render.toUTF8.IsValidUTF8) v.render.isValidUTF8
  exact ⟨w, ⟨hparse, fun hfile => FileTree.readJson_eq_ok_iff.mpr
    ⟨v.render, FileTree.readText_eq_ok_iff.mpr ⟨_, hfile, hutf8⟩, hparse⟩⟩, hread⟩

namespace Report

/-- The file of that name in a report is a document of which `P` holds once it is read. -/
def Reads (report : Report) (name : String) (P : Json → Prop) : Prop :=
  ∃ text v, report.find? (fun file => file.path = .ofText name) = some ⟨.ofText name, text⟩ ∧
    v.ReadFrom text ∧ P v

theorem find?_of_mem {report : Report} {file : ReportFile}
    (hdistinct : (report.map ReportFile.path).Nodup) (h : file ∈ report) :
    report.find? (fun other => other.path = file.path) = some file := by
  induction report with
  | nil => cases h
  | cons first rest ih =>
      obtain ⟨hfirst, hrest⟩ := List.nodup_cons.mp hdistinct
      rcases List.mem_cons.mp h with rfl | hmem
      · exact List.find?_cons_of_pos (decide_eq_true rfl)
      · have hne : first.path ≠ file.path := by
          intro heq
          rw [heq] at hfirst
          exact hfirst (List.mem_map_of_mem hmem)
        rw [List.find?_cons_of_neg (by simpa using hne)]
        exact ih hrest hmem

theorem reads_of_mem {report : Report} {name : String} {v : Json} {P : Json → Prop}
    (hnamed : report.Named) (h : ⟨.ofText name, v.render⟩ ∈ report)
    (hv : Json.Readable Json.maxDepth v) (hP : ∀ w, v.reread = .ok w → P w) :
    report.Reads name P := by
  obtain ⟨w, hfrom, hread⟩ := Json.exists_readFrom hv
  exact ⟨v.render, w, find?_of_mem hnamed.distinct h, hfrom, hP w hread⟩

end Report

namespace Assessment

/-- An assessment of results, and of a baseline if there is one, that were read from documents. -/
inductive OfDocuments (t : Thresholds) : Assessment → Prop where
  | compared {current : Json} {baseline : Option Json} : current.Fits →
      (∀ v ∈ baseline, v.Fits) → OfDocuments t (ofDocuments current baseline t)
  | told {current : Json} (detected : Bool) : current.Fits →
      OfDocuments t (withFlag (.ofJson .current current) detected t)

/-- A report whose documents can all be read, and say what was assessed. -/
structure IsToldBy (e : Assessment) (now : Timestamp) (report : Report) : Prop where
  /-- All other files are texts. -/
  documents : ∀ file ∈ report, file.path ≠ .ofText comparisonTextFileName →
    file.path ≠ .ofText hintsFileName → ∃ v : Json, v.ReadFrom file.content
  summary : report.Reads summaryFileName (e.summary now).ReadsAs
  statistics : report.Reads statisticsFileName e.statistics.ReadsAs
  comparison : ∀ c, e.comparison = some c → report.Reads comparisonFileName c.ReadsAs

variable {t : Thresholds} {e : Assessment}

theorem OfDocuments.exists_ofDocument (h : OfDocuments t e) : ∃ v, v.Fits ∧ OfDocument v t e := by
  cases h with
  | compared hcurrent _ => exact ⟨_, hcurrent, .compared _⟩
  | told detected hcurrent => exact ⟨_, hcurrent, .told detected⟩

theorem OfDocument.reads_summary {v : Json} (he : OfDocument v t e) (hv : v.Fits)
    (now : Timestamp) : (Report.full e now).Reads summaryFileName (e.summary now).ReadsAs :=
  Report.reads_of_mem (Report.named_full e now) (List.mem_append_right _ List.mem_cons_self)
    (he.readable_summary hv now)
    fun _ => Summary.readsAs (he.inRange hv).time_nonneg (he.inRange hv).memory_nonneg

theorem OfDocument.readable_statistics {v : Json} (he : OfDocument v t e) (hv : v.Fits) :
    Json.Readable Json.maxDepth e.statistics.toJson := by
  obtain ⟨comparison, detected, rfl⟩ := he.exists_judge
  exact (Statistics.countsWithin_ofResults (.ofJson .current v)).readable
    (Results.total_lt hv .current)

theorem OfDocument.nodup_suites {v : Json} (he : OfDocument v t e) : e.statistics.suites.Nodup := by
  obtain ⟨comparison, detected, rfl⟩ := he.exists_judge
  exact Statistics.nodup_suites .current (.ofResults (.ofJson .current v))
    (Results.ofJson .current v).records

theorem readable_ofJson {v : Json} (hv : v.Fits) (origin : Origin) (depth : Nat) :
    Json.Readable (depth + 1) (Metrics.ofResults (.ofJson origin v)).toJson := by
  refine Metrics.readable_toJson (Metrics.successful_le_total _) ?_
  rw [Metrics.ofResults_total]
  exact Results.total_lt hv origin

theorem OfDocuments.readable_comparison {c : Comparison} (h : OfDocuments t e)
    (hc : e.comparison = some c) : Json.Readable Json.maxDepth c.toJson := by
  cases h with
  | @compared current baseline hcurrent hbaseline =>
      cases baseline with
      | none => cases hc
      | some v =>
          obtain rfl := Option.some.inj hc
          exact Comparison.readable_toJson (readable_ofJson (hbaseline v rfl) .baseline)
            (readable_ofJson hcurrent .current)
  | told detected hcurrent => cases hc

theorem mem_full_of_comparison {c : Comparison} (hc : e.comparison = some c) (now : Timestamp) :
    ⟨.ofText comparisonFileName, c.toJson.render⟩ ∈ Report.full e now := by
  unfold Report.full Report.ofComparison
  rw [hc]
  exact List.mem_append_left _ List.mem_cons_self

/--
**Reports are read as they were written**, outside the finite measures. That holds for all results
and baselines that were read from documents, whatever texts they hold, and at all times.
-/
theorem OfDocuments.isToldBy_full (h : OfDocuments t e) (now : Timestamp) :
    e.IsToldBy now (.full e now) := by
  obtain ⟨v, hv, he⟩ := h.exists_ofDocument
  have hnamed := Report.named_full e now
  have hsummary := he.readable_summary hv now
  have hstatistics := he.readable_statistics hv
  constructor
  · intro file hfile hnotText hnotHints
    have hread : ∀ {v : Json}, Json.Readable Json.maxDepth v → ∃ w : Json, w.ReadFrom v.render :=
      fun hv => (Json.exists_readFrom hv).imp fun _ h => h.1
    rcases List.mem_append.mp hfile with hcompared | hfile
    · unfold Report.ofComparison at hcompared
      split at hcompared
      · cases hcompared
      · rename_i c hc
        simp only [List.mem_cons, List.not_mem_nil, or_false] at hcompared
        rcases hcompared with rfl | rfl
        · exact hread (h.readable_comparison hc)
        · exact absurd rfl hnotText
    · simp only [List.mem_cons, List.not_mem_nil, or_false] at hfile
      rcases hfile with rfl | rfl | rfl
      · exact hread hsummary
      · exact hread hstatistics
      · exact absurd rfl hnotHints
  · exact he.reads_summary hv now
  · exact Report.reads_of_mem hnamed
      (List.mem_append_right _ (List.mem_cons_of_mem _ List.mem_cons_self)) hstatistics
      fun _ => Statistics.readsAs he.nodup_suites
  · exact fun c hc => Report.reads_of_mem hnamed (mem_full_of_comparison hc now)
      (h.readable_comparison hc) fun _ => Comparison.readsAs

/-- A suite whose name has to be escaped, and one whose name is empty. -/
theorem isToldBy_full_escaped :
    let name := "\"\\\n\x00"
    let run := Json.array [.object [("suite", .string name), ("success", .bool true)],
      .object [("suite", .string "")]]
    let report := Report.full (ofDocuments run (some run) .standard) ⟨0, 0⟩
    report.Reads statisticsFileName (fun v => v.get? "suites" = some (.ofStrings ["", name])) ∧
      ∃ c : Comparison, report.Reads comparisonFileName c.ReadsAs := by
  intro name run report
  have hfits : run.Fits := by simp [run]
  have he : OfDocuments .standard (ofDocuments run (some run) .standard) :=
    .compared hfits fun v hv => Option.some.inj hv ▸ hfits
  have htold := he.isToldBy_full ⟨0, 0⟩
  have hsuites : (ofDocuments run (some run) .standard).statistics.suites = ["", name] := by
    decide +kernel
  refine ⟨?_, _, htold.comparison _ rfl⟩
  obtain ⟨text, v, hfile, hfrom, hreads⟩ := htold.statistics
  exact ⟨text, v, hfile, hfrom, hsuites ▸ hreads.suites⟩

end Assessment

end BenchGate
