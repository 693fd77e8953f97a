import BenchGate.Proofs.AtTolerance
import BenchGate.Proofs.FailureRate

/-!
# Increases of the failure rate at the tolerance

The computed increase of the failure rate is the rounded difference of two rounded shares, and it is
compared with the rounded hundredth of the tolerance. All four numbers lie in `[0, 1]` as long as
the comparison matters, where a rounding goes no further than half of `roundoff`. So a raised flag
lacks less than three roundings of being right, and one that is not raised is at most four late.

Shares of lists and whole points have small denominators, and then three roundings are less than
what lies between two of them: such a flag can be wrong at the tolerance only. Against a baseline
without failures nothing is subtracted, the order of what is rounded is that of the exact values,
and the flag is right.
-/

namespace BenchGate

open Binary64

attribute [local irreducible] unitsInOne unitsAtTop Binary64.gapBelowOne

/-! ## Increases of a share -/

theorem rounds_hundredth {p : Binary64} (hp : IsAmount p) : Rounds (p.toRat / 100) (p / 100) := by
  have hround := rounds_div hp.1 isFinite_hundred hundred_pos
  rwa [toRat_hundred] at hround

theorem toRat_hundredth_nonneg {p : Binary64} (hp : IsAmount p) : 0 ≤ p.toRat / 100 :=
  div_nonneg (toRat_nonneg hp.nonneg) (by norm_num)

section Increase

variable {v w : ℚ} {x y p : Binary64} (hx : RoundsShare v x) (hy : RoundsShare w y)
  (hp : IsAmount p)
include hx hy hp

/-- The hundredth of the tolerance was below the difference before that was rounded. -/
theorem toRat_hundredth_lt (h : p / 100 < x - y) : (p / 100).toRat < x.toRat - y.toRat :=
  (rounds_sub hx.isFinite hy.isFinite).lt_of_toRat_lt
    (isFinite_div hp.1 hp.nonneg isFinite_hundred one_le_hundred) h

theorem hundredth_lt_add_roundings (h : p / 100 < x - y) :
    p.toRat / 100 < v - w + 3 * (roundoff / 2) := by
  have hlt := toRat_hundredth_lt hx hy hp h
  by_cases hone : p.toRat / 100 ≤ 1
  · have hq : RoundsShare (p.toRat / 100) (p / 100) :=
      ⟨rounds_hundredth hp, toRat_hundredth_nonneg hp, hone⟩
    obtain ⟨hbelow, -⟩ := abs_le.mp hq.near
    obtain ⟨-, hxv⟩ := abs_le.mp hx.near
    obtain ⟨hyw, -⟩ := abs_le.mp hy.near
    linarith
  · -- no difference of shares is above a hundred points
    have hlarge := toRat_mono ((rounds_hundredth hp).one_le (by linarith))
    rw [toRat_one] at hlarge
    have hx1 := hx.toRat_bounds.2
    have hy0 := hy.toRat_bounds.1
    linarith

theorem sub_le_hundredth_add_roundings (h : ¬ p / 100 < x - y) :
    v - w ≤ p.toRat / 100 + 4 * (roundoff / 2) := by
  have hu := roundoff_pos
  have h0 := toRat_hundredth_nonneg hp
  have hsub := rounds_sub hx.isFinite hy.isFinite
  have hle := toRat_mono ((not_lt_iff (rounds_hundredth hp).1 hsub.1).mp h)
  by_cases hone : p.toRat / 100 ≤ 1
  · have hq : RoundsShare (p.toRat / 100) (p / 100) := ⟨rounds_hundredth hp, h0, hone⟩
    obtain ⟨-, habove⟩ := abs_le.mp hq.near
    obtain ⟨hxv, -⟩ := abs_le.mp hx.near
    obtain ⟨-, hyw⟩ := abs_le.mp hy.near
    by_cases hdifference : 0 ≤ x.toRat - y.toRat
    · have hx1 := hx.toRat_bounds.2
      have hy0 := hy.toRat_bounds.1
      obtain ⟨hrounded, -⟩ := abs_le.mp (hsub.absolute hdifference (by linarith))
      linarith
    · -- shares that come out in the other order are no more than two roundings apart
      linarith
  · have hv1 := hx.le_one
    have hw0 := hy.nonneg
    linarith

/-- With nothing to subtract the order of the rounded numbers is that of the exact ones. -/
theorem hundredth_lt_of_eq_zero (hw : w = 0) (h : p / 100 < x - y) : p.toRat / 100 < v - w := by
  have hlt := toRat_hundredth_lt hx hy hp h
  have hzero := hy.rounds
  rw [hw] at hzero
  rw [hzero.toRat_eq_zero, sub_zero] at hlt
  rw [hw, sub_zero]
  exact (rounds_hundredth hp).lt_of_lt hx.rounds
    ⟨(rounds_hundredth hp).1, hx.rounds.1, toRat_lt_toRat.mp hlt⟩

/-- With exact shares only the difference is rounded. -/
theorem hundredth_lt_of_exact (hxv : x.toRat = v) (hyw : y.toRat = w) (h : p / 100 < x - y) :
    p.toRat / 100 < v - w := by
  have hsub := rounds_sub hx.isFinite hy.isFinite
  rw [hxv, hyw] at hsub
  exact (rounds_hundredth hp).lt_of_lt hsub h

end Increase

/-- Shares of lists and whole points differ by nothing or by a fraction with a known denominator,
which is more than three roundings if the lists are not too long. -/
theorem le_sub_of_lt_add_roundings {f g k n m : Nat} (hn : 0 < n) (hm : 0 < m)
    (hsmall : 300 * (n * m) ≤ 2 ^ 54)
    (h : (k : ℚ) / 100 < g / m - f / n + 3 * (roundoff / 2)) : (k : ℚ) / 100 ≤ g / m - f / n := by
  have hg : (g / m : ℚ) * m = g := div_mul_cancel₀ _ (Nat.cast_ne_zero.mpr (Nat.ne_of_gt hm))
  have hf : (f / n : ℚ) * n = f := div_mul_cancel₀ _ (Nat.cast_ne_zero.mpr (Nat.ne_of_gt hn))
  have hscale : (0 : ℚ) < 100 * (n * m) := by positivity
  obtain ⟨numerator, hnumerator⟩ : ∃ numerator : Int,
      (g / m - f / n - k / 100 : ℚ) * (100 * (n * m)) = numerator := by
    refine ⟨100 * (g * n - f * m) - k * (n * m), ?_⟩
    calc (g / m - f / n - k / 100 : ℚ) * (100 * (n * m))
        = 100 * (g / m * m * n - f / n * n * m) - k * (n * m) := by ring
      _ = (100 * (g * n - f * m) - k * (n * m) : Int) := by
        rw [hg, hf]
        push_cast
        rfl
  have hroundings : 3 * (roundoff / 2) * (100 * (n * m)) ≤ 1 := by
    have hsmall' : (300 : ℚ) * (n * m) ≤ 2 ^ 54 := by exact_mod_cast hsmall
    unfold roundoff
    linarith
  have habove : (-1 : ℚ) < numerator := by
    have hmul := mul_lt_mul_of_pos_right h hscale
    linarith
  have hnonneg : 0 ≤ numerator := by
    have hint : -1 < numerator := by exact_mod_cast habove
    omega
  have hgap : 0 ≤ (g / m - f / n - k / 100 : ℚ) := by
    refine nonneg_of_mul_nonneg_left ?_ hscale
    rw [hnumerator]
    exact_mod_cast hnonneg
  linarith

/-! ## The failure rate of records -/

/-- The share of failed records, without rounding. -/
def failedShare (records : List Record) : ℚ :=
  (records.countP fun r => !r.success : Nat) / records.length

theorem failedShare_eq_zero {records : List Record} (h : ∀ r ∈ records, r.success = true) :
    failedShare records = 0 := by
  have hnone : records.countP (fun r => !r.success) = 0 := by
    rw [List.countP_eq_zero]
    simpa using h
  unfold failedShare
  rw [hnone, Nat.cast_zero, zero_div]

theorem roundsShare_failureRate {records : List Record} (h0 : records ≠ [])
    (hlen : records.length ≤ 2 ^ 53) :
    RoundsShare (failedShare records) (Metrics.ofRecords records).failureRate := by
  rw [Metrics.ofRecords_failureRate_eq_share h0 (by omega)]
  exact roundsShare_share (List.length_pos_iff.mpr h0) List.countP_le_length hlen

/-- How a raised flag and the exact increase of the failure rate stand to each other. -/
structure JudgesIncrease (base records : List Record) (p : Binary64) (raised : Bool) : Prop where
  /-- A raised flag is for an increase that lacks less than three roundings of being above. -/
  of_raised : raised = true →
    p.toRat / 100 < failedShare records - failedShare base + 3 * (roundoff / 2)
  /-- Without a flag the increase is at most four roundings above. -/
  of_not_raised : raised = false →
    failedShare records - failedShare base ≤ p.toRat / 100 + 4 * (roundoff / 2)
  /-- Against a baseline without failures a raised flag is right. -/
  of_no_failures : (∀ r ∈ base, r.success = true) → raised = true →
    p.toRat / 100 < failedShare records - failedShare base
  /-- It is right too if neither of the two rates had to be rounded. -/
  of_exact : (Metrics.ofRecords records).failureRate.toRat = failedShare records →
    (Metrics.ofRecords base).failureRate.toRat = failedShare base → raised = true →
    p.toRat / 100 < failedShare records - failedShare base
  /-- For a whole number of points and lists that are not too long, the increase is at the tolerance
  or above. -/
  of_whole_points : ∀ k ≤ 2 ^ 53, p = ofNat k →
    300 * (base.length * records.length) ≤ 2 ^ 54 → raised = true →
    p.toRat / 100 ≤ failedShare records - failedShare base

namespace Regression

/-- **The flag of the failure rate judges the exact increase**, up to roundings. -/
theorem between_judgesIncrease {base records : List Record} {t : Tolerances} (hbase : base ≠ [])
    (hrecords : records ≠ []) (hblen : base.length ≤ 2 ^ 53) (hrlen : records.length ≤ 2 ^ 53)
    (henough : t.minBenchmarks ≤ (Metrics.ofRecords records).successful)
    (ht : IsAmount t.failureRate) :
    JudgesIncrease base records t.failureRate
      (between (.ofRecords base) (.ofRecords records) t).failureRateRegressed := by
  have hx := roundsShare_failureRate hrecords hrlen
  have hy := roundsShare_failureRate hbase hblen
  rw [(between_flags (.ofRecords base) henough).2.2]
  constructor
  · intro hraised
    exact hundredth_lt_add_roundings hx hy ht (of_decide_eq_true hraised)
  · intro hquiet
    exact sub_le_hundredth_add_roundings hx hy ht (of_decide_eq_false hquiet)
  · intro hall hraised
    exact hundredth_lt_of_eq_zero hx hy ht (failedShare_eq_zero hall) (of_decide_eq_true hraised)
  · intro hxv hyw hraised
    exact hundredth_lt_of_exact hx hy ht hxv hyw (of_decide_eq_true hraised)
  · intro k hk hpoints hsmall hraised
    have hlt := hundredth_lt_add_roundings hx hy ht (of_decide_eq_true hraised)
    rw [hpoints, toRat_ofNat hk] at hlt ⊢
    exact le_sub_of_lt_add_roundings (List.length_pos_iff.mpr hbase)
      (List.length_pos_iff.mpr hrecords) hsmall hlt

/-- Records of a run in which some benchmarks succeeded and others failed. -/
def mixedRecords (succeeded failed : Nat) : List Record :=
  List.replicate succeeded (.basic "suite" "name" 1 0 true) ++
    List.replicate failed (.basic "suite" "name" 0 0 false)

theorem failedShare_mixedRecords (succeeded failed : Nat) :
    failedShare (mixedRecords succeeded failed) = failed / (succeeded + failed : Nat) := by
  unfold failedShare mixedRecords
  rw [List.countP_append, List.countP_replicate, List.countP_replicate, List.length_append,
    List.length_replicate, List.length_replicate]
  simp [Record.basic]

/-- One failure in twenty records, against none, is at five points and passes. -/
theorem between_judgesIncrease_fivePoints :
    (between (.ofRecords (mixedRecords 20 0)) (.ofRecords (mixedRecords 19 1))
      .standard).failureRateRegressed = false := by
  have henough : Tolerances.standard.minBenchmarks ≤
      (Metrics.ofRecords (mixedRecords 19 1)).successful := by decide +kernel
  have hbase : mixedRecords 20 0 ≠ [] := by decide
  have hjudged := between_judgesIncrease hbase (by decide) (by decide) (by decide) henough
    (by decide +kernel)
  rw [← Bool.not_eq_true]
  intro hraised
  have hlt := hjudged.of_no_failures (by decide) hraised
  change (ofNat 5).toRat / 100 < _ at hlt
  rw [failedShare_mixedRecords, failedShare_mixedRecords, toRat_ofNat (by decide)] at hlt
  norm_num at hlt

/-- Four failures in twenty records, against three, are at five points and are flagged. -/
theorem between_fivePoints :
    Tolerances.standard.minBenchmarks ≤ (Metrics.ofRecords (mixedRecords 16 4)).successful ∧
      (between (.ofRecords (mixedRecords 17 3)) (.ofRecords (mixedRecords 16 4))
        .standard).failureRateRegressed = true ∧
      failedShare (mixedRecords 16 4) - failedShare (mixedRecords 17 3) =
        Tolerances.standard.failureRate.toRat / 100 := by
  refine ⟨by decide +kernel, by decide +kernel, ?_⟩
  change _ = (ofNat 5).toRat / 100
  rw [failedShare_mixedRecords, failedShare_mixedRecords, toRat_ofNat (by decide)]
  norm_num

end Regression

end BenchGate
