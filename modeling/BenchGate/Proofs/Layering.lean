import BenchGate.Proofs.Json.Acceptance
import BenchGate.Proofs.Loading
import BenchGate.Proofs.Thresholds

/-!
# What the layers of thresholds make

Each threshold comes from the last of three layers that names it: a flag of the command line, the
configuration file, the standard. `Overrides.Layers` says so for all seven of them, by what the
plain reader finds in the configuration, so nothing of the decoder is left in it.

The configuration has to be in range on its own, and once more under the flags. So thresholds that
were accepted are `Thresholds.Bounded`, and thresholds were refused only for a file that cannot be
read, for a text that is no configuration, or for a bound that one of the two broke.
-/

namespace BenchGate

open Json Decoder Binary64

attribute [local irreducible] unitsInOne unitsAtTop

/-! ## One threshold -/

/-- A threshold from three layers: a flag, else what a configuration writes, else the standard. -/
def Layered {α : Type} (convert : Json → Option α) (flag : Option α) (written : Option Json)
    (standard x : α) : Prop :=
  match flag, written with
  | some value, _ => x = value
  | none, some v => convert v = some x
  | none, none => x = standard

section Layered

variable {α : Type} {convert : Json → Option α} {standard x : α} {done : List (String × Json)}
  {name other : String} {v : Json}

/-- The latest entry is what is written. -/
theorem Layered.stored (h : convert v = some x) :
    Layered convert none (((name, v) :: done).lookup name) standard x := by
  rw [List.lookup_cons_self]
  exact h

/-- An entry of another name changes nothing. -/
theorem Layered.kept (hname : name ≠ other)
    (h : Layered convert none (done.lookup name) standard x) :
    Layered convert none (((other, v) :: done).lookup name) standard x := by
  rw [List.lookup_cons, beq_false_of_ne hname]
  exact h

/-- A flag comes before whatever is below it. -/
theorem Layered.flagged {written : Option Json} (flag : Option α)
    (h : Layered convert none written standard x) :
    Layered convert flag written standard (flag.getD x) := by
  cases flag with
  | none => exact h
  | some value => exact rfl

end Layered

/-! ## The thresholds of a configuration -/

/-- The names of the tolerances, in the order of an array. -/
def Tolerances.names : List String :=
  ["executionTimePercent", "memoryUsagePercent", "failureRateIncreasePercent", "minBenchmarks"]

/-- The names of the ceilings, in the order of an array. -/
def Ceilings.names : List String := ["maxExecutionTimeMs", "maxMemoryUsageMB", "maxFailureRate"]

/-- The names of the parts of a configuration, in the order of an array. -/
def Thresholds.names : List String := ["regression", "gate"]

/-- Tolerances after some entries, the latest of them first. -/
structure Tolerances.Written (done : List (String × Json)) (r : Tolerances) : Prop where
  time : Layered toAmount? none (done.lookup "executionTimePercent") standard.time r.time
  memory : Layered toAmount? none (done.lookup "memoryUsagePercent") standard.memory r.memory
  failureRate : Layered toAmount? none (done.lookup "failureRateIncreasePercent")
    standard.failureRate r.failureRate
  minBenchmarks : Layered toExactCount? none (done.lookup "minBenchmarks")
    standard.minBenchmarks r.minBenchmarks

/-- Ceilings after some entries, the latest of them first. -/
structure Ceilings.Written (done : List (String × Json)) (g : Ceilings) : Prop where
  time : Layered toAmount? none (done.lookup "maxExecutionTimeMs") standard.time g.time
  memory : Layered toAmount? none (done.lookup "maxMemoryUsageMB") standard.memory g.memory
  failureRate : Layered toAmount? none (done.lookup "maxFailureRate")
    standard.failureRate g.failureRate

/-- Thresholds after some entries, the latest of them first. -/
structure Thresholds.Written (done : List (String × Json)) (t : Thresholds) : Prop where
  regression : t.regression.Written (entries Tolerances.names (done.lookup "regression")).reverse
  gate : t.gate.Written (entries Ceilings.names (done.lookup "gate")).reverse

theorem Tolerances.standard_written : Tolerances.standard.Written [] := ⟨rfl, rfl, rfl, rfl⟩

theorem Ceilings.standard_written : Ceilings.standard.Written [] := ⟨rfl, rfl, rfl⟩

theorem Thresholds.standard_written : Thresholds.standard.Written [] :=
  ⟨Tolerances.standard_written, Ceilings.standard_written⟩

theorem Tolerances.fields_keep (depth : Nat) :
    FieldsKeep depth (fun done r => Tolerances.Written done r) Tolerances.fields := by
  intro f hf done r h
  simp only [fields, List.mem_cons, List.not_mem_nil, or_false] at hf
  rcases hf with rfl | rfl | rfl | rfl
  · exact field_keeps (amount_agrees depth) fun v x hx =>
      ⟨.stored hx, .kept (by decide) h.memory, .kept (by decide) h.failureRate,
        .kept (by decide) h.minBenchmarks⟩
  · exact field_keeps (amount_agrees depth) fun v x hx =>
      ⟨.kept (by decide) h.time, .stored hx, .kept (by decide) h.failureRate,
        .kept (by decide) h.minBenchmarks⟩
  · exact field_keeps (amount_agrees depth) fun v x hx =>
      ⟨.kept (by decide) h.time, .kept (by decide) h.memory, .stored hx,
        .kept (by decide) h.minBenchmarks⟩
  · exact field_keeps (count_agrees depth) fun v n hn =>
      ⟨.kept (by decide) h.time, .kept (by decide) h.memory, .kept (by decide) h.failureRate,
        .stored hn⟩

theorem Ceilings.fields_keep (depth : Nat) :
    FieldsKeep depth (fun done g => Ceilings.Written done g) Ceilings.fields := by
  intro f hf done g h
  simp only [fields, List.mem_cons, List.not_mem_nil, or_false] at hf
  rcases hf with rfl | rfl | rfl
  · exact field_keeps (amount_agrees depth) fun v x hx =>
      ⟨.stored hx, .kept (by decide) h.memory, .kept (by decide) h.failureRate⟩
  · exact field_keeps (amount_agrees depth) fun v x hx =>
      ⟨.kept (by decide) h.time, .stored hx, .kept (by decide) h.failureRate⟩
  · exact field_keeps (amount_agrees depth) fun v x hx =>
      ⟨.kept (by decide) h.time, .kept (by decide) h.memory, .stored hx⟩

theorem Thresholds.fields_keep (depth : Nat) :
    FieldsKeep (depth + 1) (fun done t => Thresholds.Written done t) Thresholds.fields := by
  intro f hf done t h
  simp only [fields, List.mem_cons, List.not_mem_nil, or_false] at hf
  -- a part of a configuration is a record of its own, and starts from the standard again
  rcases hf with rfl | rfl
  · refine field_keeps (record_agrees _ (List.cons_ne_nil _ _) (Tolerances.fields_keep depth)
      Tolerances.standard_written) fun v r hr => ⟨?_, ?_⟩
    · rw [List.lookup_cons_self]
      exact hr
    · rw [List.lookup_cons, beq_false_of_ne (by decide)]
      exact h.gate
  · refine field_keeps (record_agrees _ (List.cons_ne_nil _ _) (Ceilings.fields_keep depth)
      Ceilings.standard_written) fun v g hg => ⟨?_, ?_⟩
    · rw [List.lookup_cons, beq_false_of_ne (by decide)]
      exact h.regression
    · rw [List.lookup_cons_self]
      exact hg

/-- **A configuration is decoded as the plain reader reads it.** -/
theorem Thresholds.written_of_decode {text : String} {t : Thresholds}
    (h : Thresholds.decode text = .ok t) :
    ∃ v, parse text = .ok v ∧ t.Written (entries Thresholds.names (some v)).reverse :=
  -- a configuration opens two of the `maxDepth` levels
  parse_of_decode (record_agrees _ (List.cons_ne_nil _ _) (Thresholds.fields_keep (maxDepth - 2))
    Thresholds.standard_written) h

/-! ## What is a configuration -/

/-- The kind of value that a tolerance is given by. -/
def Tolerances.kind (name : String) (v : Json) : Prop :=
  if name = "minBenchmarks" then v.toExactCount?.isSome else v.toAmount?.isSome

/-- The kind of value that a ceiling is given by. -/
def Ceilings.kind (_ : String) (v : Json) : Prop := v.toAmount?.isSome

/-- The kind of value that a part of a configuration is written by. -/
def Thresholds.kind (name : String) (v : Json) : Prop :=
  if name = "regression" then v.WritesRecord Tolerances.kind Tolerances.names
  else v.WritesRecord Ceilings.kind Ceilings.names

/-- A document with no other fields than those of a configuration, each once and of its kind. -/
def Thresholds.IsConfiguration : Json → Prop := WritesRecord Thresholds.kind Thresholds.names

theorem Tolerances.fields_accept (depth : Nat) :
    FieldsAccept depth Tolerances.kind Tolerances.fields := by
  intro f hf r
  simp only [fields, List.mem_cons, List.not_mem_nil, or_false] at hf
  rcases hf with rfl | rfl | rfl | rfl
  · exact field_accepts (amount_accepts depth) _ _ r
  · exact field_accepts (amount_accepts depth) _ _ r
  · exact field_accepts (amount_accepts depth) _ _ r
  · exact field_accepts (count_accepts depth) _ _ r

theorem Ceilings.fields_accept (depth : Nat) :
    FieldsAccept depth Ceilings.kind Ceilings.fields := by
  intro f hf g
  simp only [fields, List.mem_cons, List.not_mem_nil, or_false] at hf
  rcases hf with rfl | rfl | rfl
  · exact field_accepts (amount_accepts depth) _ _ g
  · exact field_accepts (amount_accepts depth) _ _ g
  · exact field_accepts (amount_accepts depth) _ _ g

theorem Thresholds.fields_accept (depth : Nat) :
    FieldsAccept (depth + 1) Thresholds.kind Thresholds.fields := by
  intro f hf t
  simp only [fields, List.mem_cons, List.not_mem_nil, or_false] at hf
  rcases hf with rfl | rfl
  · exact field_accepts
      (record_accepts _ _ (List.cons_ne_nil _ _) (Tolerances.fields_accept depth)) _ _ t
  · exact field_accepts
      (record_accepts _ _ (List.cons_ne_nil _ _) (Ceilings.fields_accept depth)) _ _ t

/-- **No configuration is refused**, whatever is around it and whatever numbers it has. -/
theorem Thresholds.decode_of_isConfiguration {text : String} {v : Json}
    (hparse : parse text = .ok v) (h : IsConfiguration v) :
    ∃ t, Thresholds.decode text = .ok t :=
  decode_of_parse
    (record_accepts _ _ (List.cons_ne_nil _ _) (Thresholds.fields_accept (maxDepth - 2))) hparse h

/-! ## All thresholds -/

/-- A finite number is below zero or not, while `nan` would be neither below nor above. -/
theorem isAmount_iff (x : Binary64) : IsAmount x ↔ x.isFinite = true ∧ 0 ≤ x := by
  constructor
  · intro h
    exact ⟨h.1, h.nonneg⟩
  · rintro ⟨hfinite, hnonneg⟩
    exact ⟨hfinite, (not_lt_iff (ne_nan_of_isFinite hfinite) (ofNat_ne_nan 0)).mpr hnonneg⟩

namespace Thresholds

/-- What a configuration writes for a tolerance. -/
def tolerance? (name : String) (config : Option Json) : Option Json :=
  member? Tolerances.names name (member? Thresholds.names "regression" config)

/-- What a configuration writes for a ceiling. -/
def ceiling? (name : String) (config : Option Json) : Option Json :=
  member? Ceilings.names name (member? Thresholds.names "gate" config)

/-- Finite tolerances and ceilings that are not negative, and a share of failures. -/
structure Bounded (t : Thresholds) : Prop where
  amounts : ∀ x ∈ [t.regression.time, t.regression.memory, t.regression.failureRate, t.gate.time,
    t.gate.memory], x.isFinite = true ∧ 0 ≤ x
  share : 0 ≤ t.gate.failureRate ∧ t.gate.failureRate ≤ 1

/-- Verification accepts exactly what is bounded, so neither `nan` nor an infinity slips through. -/
theorem verify_eq_ok_iff_bounded (t : Thresholds) : t.verify = .ok () ↔ t.Bounded := by
  have hamounts : (∀ a ∈ t.amounts, IsAmount a.2) ↔ ∀ x ∈ t.amounts.map Prod.snd,
      x.isFinite = true ∧ 0 ≤ x := by
    rw [List.forall_mem_map]
    exact forall₂_congr fun a _ => isAmount_iff a.2
  rw [verify_eq_ok_iff, hamounts]
  exact ⟨fun h => ⟨h.1, h.2⟩, fun h => ⟨h.amounts, h.share⟩⟩

theorem not_bounded_of_verify {t : Thresholds} {fault : ThresholdFault}
    (h : t.verify = .error fault) : ¬ t.Bounded := by
  intro hbounded
  rw [(verify_eq_ok_iff_bounded t).mpr hbounded] at h
  cases h

end Thresholds

namespace Overrides

/-- Thresholds of which each comes from its flag, else from the configuration, else the standard. -/
structure Layers (o : Overrides) (config : Option Json) (t : Thresholds) : Prop where
  time : Layered toAmount? o.time (Thresholds.tolerance? "executionTimePercent" config)
    Tolerances.standard.time t.regression.time
  memory : Layered toAmount? o.memory (Thresholds.tolerance? "memoryUsagePercent" config)
    Tolerances.standard.memory t.regression.memory
  failureRate : Layered toAmount? o.failureRate
    (Thresholds.tolerance? "failureRateIncreasePercent" config)
    Tolerances.standard.failureRate t.regression.failureRate
  minBenchmarks : Layered toExactCount? o.minBenchmarks
    (Thresholds.tolerance? "minBenchmarks" config)
    Tolerances.standard.minBenchmarks t.regression.minBenchmarks
  maxTime : Layered toAmount? o.maxTime (Thresholds.ceiling? "maxExecutionTimeMs" config)
    Ceilings.standard.time t.gate.time
  maxMemory : Layered toAmount? o.maxMemory (Thresholds.ceiling? "maxMemoryUsageMB" config)
    Ceilings.standard.memory t.gate.memory
  maxFailureRate : Layered toAmount? o.maxFailureRate
    (Thresholds.ceiling? "maxFailureRate" config)
    Ceilings.standard.failureRate t.gate.failureRate

/-- The document in the configuration file, if the command line names one. -/
def Configured (o : Overrides) (files : FileTree) : Option Json → Prop
  | none => o.config = none
  | some v => ∃ path, o.config = some path ∧ files.readJson path = .ok v

variable {o : Overrides} {files : FileTree} {config : Option Json} {t : Thresholds}

theorem layers_of_written (h : t.Written (entries Thresholds.names config).reverse) :
    Layers {} config t where
  time := h.regression.time
  memory := h.regression.memory
  failureRate := h.regression.failureRate
  minBenchmarks := h.regression.minBenchmarks
  maxTime := h.gate.time
  maxMemory := h.gate.memory
  maxFailureRate := h.gate.failureRate

theorem layers_onto (h : Layers {} config t) (o : Overrides) : o.Layers config (o.onto t) where
  time := h.time.flagged o.time
  memory := h.memory.flagged o.memory
  failureRate := h.failureRate.flagged o.failureRate
  minBenchmarks := h.minBenchmarks.flagged o.minBenchmarks
  maxTime := h.maxTime.flagged o.maxTime
  maxMemory := h.maxMemory.flagged o.maxMemory
  maxFailureRate := h.maxFailureRate.flagged o.maxFailureRate

/--
Why there are no thresholds: the configuration file cannot be read, or its text is no configuration,
or a bound is broken by the configuration alone or under the flags.
-/
def RefusedFor (o : Overrides) (files : FileTree) : ThresholdsError → Prop
  | .reading path cause => o.config = some path ∧ files.readText path = .error cause
  | .parsing path cause => o.config = some path ∧ ∃ text, files.readText path = .ok text ∧
      Thresholds.decode text = .error cause ∧
      ∀ v, parse text = .ok v → ¬ Thresholds.IsConfiguration v
  | .invalid fault => ∃ config t, o.Configured files config ∧
      (Layers {} config t ∨ o.Layers config t) ∧ t.verify = .error fault ∧ ¬ t.Bounded

/-- What is under the flags: the standard, or what the configuration file writes. -/
theorem base_cases (o : Overrides) (files : FileTree) :
    match o.base files with
    | .ok t => ∃ config, o.Configured files config ∧ Layers {} config t
    | .error e => o.RefusedFor files e := by
  unfold base
  cases hconfig : o.config with
  | none => exact ⟨none, hconfig, layers_of_written Thresholds.standard_written⟩
  | some path =>
      dsimp only
      unfold Thresholds.ofConfig Thresholds.readConfig
      cases htext : files.readText path with
      | error cause => exact ⟨hconfig, htext⟩
      | ok text =>
          dsimp only
          cases hdecode : Thresholds.decode text with
          | error cause =>
              refine ⟨hconfig, text, htext, hdecode, fun v hparse hconfiguration => ?_⟩
              obtain ⟨t, ht⟩ := Thresholds.decode_of_isConfiguration hparse hconfiguration
              rw [hdecode] at ht
              cases ht
          | ok t =>
              obtain ⟨v, hv, hwritten⟩ := Thresholds.written_of_decode hdecode
              have hdocument : o.Configured files (some v) :=
                ⟨path, hconfig, FileTree.readJson_eq_ok_iff.mpr ⟨text, htext, hv⟩⟩
              have hlayers : Layers {} (some v) t := layers_of_written hwritten
              -- the configuration is held against the bounds before any flag is looked at
              rw [ok_bind]
              unfold Thresholds.accept
              cases hverify : t.verify with
              | ok u => exact ⟨some v, hdocument, hlayers⟩
              | error fault =>
                  exact ⟨some v, t, hdocument, .inl hlayers, hverify,
                    Thresholds.not_bounded_of_verify hverify⟩

/--
**The layers of thresholds are sound.** Thresholds to measure against are bounded, and each of them
is its flag, else what the configuration file writes for it, else the standard. There are none only
where the configuration file cannot be read or is no configuration, or where a bound is broken by
the configuration alone or under the flags.
-/
theorem thresholds_layers (o : Overrides) (files : FileTree) :
    match o.thresholds files with
    | .ok t => t.Bounded ∧ ∃ config, o.Configured files config ∧ o.Layers config t
    | .error e => o.RefusedFor files e := by
  have hbase := base_cases o files
  unfold thresholds
  cases hresult : o.base files with
  | error e =>
      rw [hresult] at hbase
      exact hbase
  | ok t =>
      rw [hresult] at hbase
      obtain ⟨config, hdocument, hlayers⟩ := hbase
      have hflagged := layers_onto hlayers o
      -- and with the flags it is held against them again
      rw [ok_bind]
      unfold Thresholds.accept
      cases hverify : (o.onto t).verify with
      | ok u =>
          exact ⟨(Thresholds.verify_eq_ok_iff_bounded _).mp hverify, config, hdocument, hflagged⟩
      | error fault =>
          exact ⟨config, o.onto t, hdocument, .inr hflagged, hverify,
            Thresholds.not_bounded_of_verify hverify⟩

/-- A flag over what an object writes, an array that stops early, and the standard for the rest. -/
example :
    let text := "\x7b\"regression\":\x7b\"executionTimePercent\":20,\"minBenchmarks\":3\x7d," ++
      "\"gate\":[500]\x7d"
    (Thresholds.decode text).toOption.map (onto { time := some 25 }) =
      some
        { regression := { Tolerances.standard with time := 25, minBenchmarks := 3 }
          gate := { Ceilings.standard with time := 500 } } := by
  decide +kernel

end Overrides

end BenchGate
