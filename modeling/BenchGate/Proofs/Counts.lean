import BenchGate.Proofs.Binary64.Values
import BenchGate.Proofs.FailureRate
import BenchGate.Proofs.Verdict

/-!
# The failure rate and the counts

The failure rate is always the share of the failures that results count, and a gate without room for
failures passes results only if they count none. Whether that says anything about the successes
depends on where the counts come from. Records are counted once as the one or the other. Totals
state both numbers and are taken at their word: if the two do not add up to the total, then the rate
is that of the failures, whatever became of the other benchmarks.
-/

namespace BenchGate

open Binary64

attribute [local irreducible] unitsInOne unitsAtTop

/-! ## Counts that add up -/

/-- With exact counts, different counts make different shares. -/
theorem Binary64.eq_of_share_eq {part other whole : Nat} (hpart : part ≤ whole)
    (hother : other ≤ whole) (hwhole : whole < 2 ^ 53) (h : share part whole = share other whole) :
    part = other := by
  have hvalue := congrArg toRat h
  rcases Nat.lt_trichotomy part other with hlt | heq | hlt
  · exact absurd hvalue (ne_of_lt (toRat_share_lt (by omega) hother hlt hwhole))
  · exact heq
  · exact absurd hvalue (ne_of_gt (toRat_share_lt (by omega) hpart hlt hwhole))

/-! ## A gate without room for failures -/

/-- Such a gate passes benchmarks only if their rate is not above zero. -/
theorem GateVerdict.not_hasFailures_of_passed {m : Metrics} {detected : Bool}
    {ceilings : Ceilings} (htotal : 0 < m.total) (hrate : 0 ≤ m.failureRate)
    (hzero : ceilings.failureRate ≤ 0) (h : (ofMetrics m detected ceilings).passed = true) :
    ¬ m.HasFailures := by
  obtain ⟨-, hceiling, -⟩ := (passed_iff m detected ceilings).mp h
  exact not_lt_of_le_of_le hzero (le_refl hrate.2.1) fun hlt => hceiling ⟨htotal, hlt⟩

/-- The failure rate of metrics tells a number of failed benchmarks. -/
structure Metrics.TellsFailures (m : Metrics) (failed : Nat) : Prop where
  /-- The rate is the share of the failures, rounded once. -/
  rate : m.failureRate = share failed m.total
  /-- A gate without room for failures passes none. -/
  none_passed : ∀ (detected : Bool) (ceilings : Ceilings), ceilings.failureRate ≤ 0 →
    (GateVerdict.ofMetrics m detected ceilings).passed = true → failed = 0

namespace Metrics

theorem ofJson_failureRate_eq_share {v : Json} (h : v.Fits) (origin : Origin)
    (h0 : 0 < (Results.ofJson origin v).total) :
    (ofResults (Results.ofJson origin v)).failureRate =
      share (Results.ofJson origin v).failed (Results.ofJson origin v).total := by
  rw [failureRate_eq h origin h0]
  exact rateOf_eq_share h0 (Results.failed_le_total _) (Nat.le_of_lt (Results.total_lt h origin))

theorem tellsFailures_of_rate {m : Metrics} {failed : Nat} (h0 : 0 < m.total)
    (hle : failed ≤ m.total) (htotal : m.total ≤ 2 ^ 64)
    (hrate : m.failureRate = share failed m.total) : m.TellsFailures failed where
  rate := hrate
  none_passed detected ceilings hzero hpassed := by
    by_contra hne
    have hnonneg : 0 ≤ m.failureRate := by
      rw [hrate]
      exact (share_bounds h0 hle htotal).1
    refine GateVerdict.not_hasFailures_of_passed h0 hnonneg hzero hpassed ?_
    unfold HasFailures
    rw [hrate]
    exact share_pos (Nat.pos_of_ne_zero hne) hle htotal

/--
**The failure rate tells the failures that results count.** If these and the successes add up to the
total, then it tells the missing successes too, and of totals that can be counted exactly only then.
They do add up for an array, which a gate without room for failures passes only if all its elements
are successes.
-/
theorem ofJson_tellsFailures {v : Json} (h : v.Fits) (origin : Origin)
    (h0 : 0 < (ofResults (Results.ofJson origin v)).total) :
    let r := Results.ofJson origin v
    let m := ofResults r
    m.TellsFailures r.failed ∧
      (m.successful + r.failed = m.total → m.TellsFailures (m.total - m.successful)) ∧
      (m.total < 2 ^ 53 → m.failureRate = share (m.total - m.successful) m.total →
        m.successful + r.failed = m.total) ∧
      ∀ elements, v = .array elements →
        m.successful + r.failed = m.total ∧ m.TellsFailures (m.total - m.successful) := by
  intro r m
  have htotal : m.total = r.total := ofResults_total r
  have hle : r.failed ≤ m.total := by
    rw [htotal]
    exact r.failed_le_total
  have hlt : m.total < 2 ^ 64 := by
    rw [htotal]
    exact Results.total_lt h origin
  have hrate : m.failureRate = share r.failed m.total := by
    rw [htotal] at h0 ⊢
    exact ofJson_failureRate_eq_share h origin h0
  have htells := tellsFailures_of_rate h0 hle (Nat.le_of_lt hlt) hrate
  have hmissing : m.successful + r.failed = m.total → m.TellsFailures (m.total - m.successful) := by
    intro hsum
    rwa [← hsum, Nat.add_sub_cancel_left]
  refine ⟨htells, hmissing, fun hexact hshare => ?_, ?_⟩
  · rw [hrate] at hshare
    have heq := eq_of_share_eq hle (Nat.sub_le _ _) hexact hshare
    have hsuccessful : m.successful ≤ m.total := successful_le_total r
    omega
  · rintro elements rfl
    have hsum : m.successful + r.failed = m.total := by
      rw [htotal]
      exact successful_add_failed (elements.map Record.ofJson)
    exact ⟨hsum, hmissing hsum⟩

/-- Half of two benchmarks failed, and the gate does not pass them. -/
theorem ofJson_tellsFailures_half :
    let v := Json.object [("successful_benchmarks", .ofNat 1), ("failed_benchmarks", .ofNat 1),
      ("total_benchmarks", .ofNat 2)]
    let m := ofResults (Results.ofJson .current v)
    m.failureRate = share 1 2 ∧ (GateVerdict.ofMetrics m false .standard).passed = false := by
  intro v m
  have hfits : v.Fits := by simp [v]
  have htells := (ofJson_tellsFailures hfits .current (by decide +kernel)).1
  refine ⟨htells.rate, ?_⟩
  rw [← Bool.not_eq_true]
  intro hpassed
  exact absurd (htells.none_passed false .standard (by decide +kernel) hpassed) (by decide)

/-- A summary of ten benchmarks that names three successes and no failures. -/
theorem ofJson_threeOfTen :
    let v := Json.object [("successful_benchmarks", .ofNat 3), ("total_benchmarks", .ofNat 10)]
    let m := ofResults (Results.ofJson .current v)
    m.successful = 3 ∧ m.total = 10 ∧ m.failureRate ≠ share (m.total - m.successful) m.total ∧
      Ceilings.standard.failureRate = 0 ∧
      (GateVerdict.ofMetrics m false .standard).passed = true := by
  decide +kernel

end Metrics

end BenchGate
