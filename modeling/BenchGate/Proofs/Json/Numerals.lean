import BenchGate.Json.Writer
import BenchGate.Json.Reader
import BenchGate.Proofs.Binary64.Shortest
import BenchGate.Proofs.Json.Fits

/-!
# Reading the numerals that were written

A count is read back exactly. A measure is written with the shortest digits that stand for it and
read by another rule, as a significand times a power of ten, so it may come back as a neighbour.
`JsonNumber.reread` says as what: it goes from number to number, without the text between them.

That it needs no text rests on three facts. The digits are at most seventeen, so all of them fit
into the significand; no numeral starts with a zero that does not belong there; and wherever the
point and the exponent stand, together they only say how far the last digit is from the point.
-/

namespace BenchGate

open Binary64

attribute [local irreducible] unitsInOne unitsAtTop

/-! ## From number to number -/

/--
What the digits of a magnitude are read as. Plain digits of a whole number are followed by a point
and a zero, which goes into the significand with all zeros before it.
-/
def Magnitude.reread (x : Magnitude) : Except JsonError Binary64 :=
  if x.units = 0 then Json.scaled 0 (-1)
  else
    let d := x.shortest .toEven
    if (-5 < d.point ∧ d.point ≤ 16) ∧ 0 ≤ d.exponent then
      Json.scaled (10 * (10 ^ d.exponent.toNat * d.coefficient)) (-1)
    else Json.scaled d.coefficient d.exponent

/-- What a finite number in a document is read as. The others are not written as numbers. -/
def Binary64.reread : Binary64 → Except JsonError Binary64
  | finite s x => x.reread.map fun y => if s then -y else y
  | x => .ok x

/-- What a number of a document is read as. -/
def JsonNumber.reread : JsonNumber → Except JsonError JsonNumber
  | binary x => x.reread.map binary
  | n => .ok n

namespace Json

/-! ## The parts of a numeral -/

/-- What may follow a value: the end of the text, a comma, or the start of a line. -/
inductive Follows : List Char → Prop where
  | ended : Follows []
  | comma (rest : List Char) : Follows (',' :: rest)
  | line (rest : List Char) : Follows ('\n' :: rest)

theorem Follows.noDigitFirst {rest : List Char} (h : Follows rest) : NoDigitFirst rest := by
  cases h with
  | ended => exact fun c hc => absurd hc (by simp)
  | comma rest => exact noDigitFirst_cons rfl
  | line rest => exact noDigitFirst_cons rfl

/-- Digits whose value fits are absorbed to the last one. -/
theorem absorb_of_lt {digits : List Char} {n : Nat}
    (h : Nat.ofDigitChars 10 digits n < significandEnd) :
    absorb n digits = (Nat.ofDigitChars 10 digits n, 0) := by
  induction digits generalizing n with
  | nil => rfl
  | cons c digits ih =>
      rw [Nat.ofDigitChars_cons] at h ⊢
      have hlonger := Nat.lt_of_le_of_lt (le_ofDigitChars digits _) h
      unfold absorb
      dsimp only
      rw [if_pos hlonger]
      exact ih h

/-- Whole digits as a numeral may have them: a zero comes first only if it is the only digit. -/
structure Whole (digits : List Char) : Prop where
  all : AllDigits digits
  proper : ¬ (digits.head? = some '0' ∧ 1 < digits.length)

theorem Whole.of_head {digits : List Char} (hall : AllDigits digits)
    (hhead : digits.head? ≠ some '0') : Whole digits :=
  ⟨hall, fun h => hhead h.1⟩

theorem whole_zero : Whole ['0'] := ⟨allDigits_zeros 1, by decide⟩

theorem whole_toDigits (n : Nat) : Whole (Nat.toDigits 10 n) := by
  rcases Nat.eq_zero_or_pos n with rfl | hpos
  · exact ⟨allDigits_toDigits 0, by decide⟩
  · exact .of_head (allDigits_toDigits n) (head?_toDigits hpos)

/-- Whole digits alone are an exact number. -/
theorem readNumeral_whole {digits rest : List Char} (hw : Whole digits)
    (hlt : digitsToNat digits < significandEnd) (hr : Follows rest) (negative : Bool) :
    readNumeral negative (digits ++ rest) =
      .ok (ofInteger negative (digitsToNat digits), rest) := by
  unfold readNumeral
  rw [spanDigits_append hw.all hr.noDigitFirst]
  dsimp only
  rw [absorb_of_lt hlt, if_neg hw.proper]
  cases hr with
  | ended => rfl
  | comma rest => rfl
  | line rest => rfl

/-- Digits on both sides of a point make up one significand, shifted by those after the point. -/
theorem readNumeral_fraction {whole fraction rest : List Char} {significand : Nat} {shift : Int}
    (hw : Whole whole) (hf : AllDigits fraction)
    (hvalue : digitsToNat (whole ++ fraction) = significand) (hlt : significand < significandEnd)
    (hshift : -(fraction.length : Int) = shift) (hneg : shift < 0) (hr : NoDigitFirst rest)
    (negative : Bool) :
    readNumeral negative (whole ++ '.' :: (fraction ++ rest)) =
      readScaled negative significand shift rest := by
  subst hvalue hshift
  have hne : fraction ≠ [] := by
    rintro rfl
    exact absurd hneg (Int.lt_irrefl 0)
  have happend : digitsToNat (whole ++ fraction) =
      Nat.ofDigitChars 10 fraction (Nat.ofDigitChars 10 whole 0) := Nat.ofDigitChars_append 0
  rw [happend] at hlt ⊢
  -- the fraction only makes the significand larger
  have hwhole := Nat.lt_of_le_of_lt (le_ofDigitChars fraction _) hlt
  unfold readNumeral
  rw [spanDigits_append hw.all (noDigitFirst_cons rfl)]
  dsimp only
  rw [absorb_of_lt hwhole, if_neg hw.proper]
  simp only [spanDigits_append hf hr]
  rw [absorb_of_lt hlt, if_neg (by rwa [List.isEmpty_iff])]
  dsimp only
  congr 1
  omega

/-- Whole digits before an exponent. -/
theorem readNumeral_exponent {whole : List Char} (rest : List Char) (hw : Whole whole)
    (hlt : digitsToNat whole < significandEnd) (negative : Bool) :
    readNumeral negative (whole ++ 'e' :: rest) =
      readScaled negative (digitsToNat whole) 0 ('e' :: rest) := by
  unfold readNumeral
  rw [spanDigits_append hw.all (noDigitFirst_cons rfl)]
  dsimp only
  rw [absorb_of_lt hlt, if_neg hw.proper]
  rfl

theorem readScaled_end {rest : List Char} (hr : Follows rest) (negative : Bool) (significand : Nat)
    (shift : Int) :
    readScaled negative significand shift rest = (scaled significand shift).map
      fun x => (.binary (if negative then -x else x), rest) := by
  have hzero : shift + 0 = shift := Int.add_zero shift
  unfold readScaled
  cases hr with
  | ended =>
      show (scaled significand (shift + 0) >>= _) = _
      rw [hzero]
      rfl
  | comma rest =>
      show (scaled significand (shift + 0) >>= _) = _
      rw [hzero]
      rfl
  | line rest =>
      show (scaled significand (shift + 0) >>= _) = _
      rw [hzero]
      rfl

theorem splitSign_sign (power : Int) (text : List Char) :
    splitSign ((if power < 0 then '-' else '+') :: text) = (decide (power < 0), text) := by
  by_cases h : power < 0
  · rw [if_pos h, decide_eq_true h]
    rfl
  · rw [if_neg h, decide_eq_false h]
    rfl

/-- An exponent as it is written, with its sign. -/
theorem readExponent_signed {rest : List Char} (hr : NoDigitFirst rest) (power : Int) :
    readExponent ((if power < 0 then '-' else '+') :: (Nat.toDigits 10 power.natAbs ++ rest)) =
      .ok (power, rest) := by
  have hne : ¬ (Nat.toDigits 10 power.natAbs).isEmpty = true := by
    rw [List.isEmpty_iff]
    exact Nat.toDigits_ne_nil
  have hne' : ¬ (Nat.toDigits 10 power.natAbs ++ rest).isEmpty = true := by
    rw [List.isEmpty_iff]
    exact List.append_ne_nil_of_left_ne_nil Nat.toDigits_ne_nil rest
  unfold readExponent
  rw [splitSign_sign]
  dsimp only
  rw [spanDigits_append (allDigits_toDigits power.natAbs) hr, if_neg hne', if_neg hne,
    digitsToNat_toDigits]
  congr 2
  split
  · rename_i h
    have := of_decide_eq_true h
    omega
  · rename_i h
    have := of_decide_eq_false (Bool.not_eq_true _ ▸ h)
    omega

theorem readScaled_exponent {rest : List Char} (hr : NoDigitFirst rest) (negative : Bool)
    (significand : Nat) (shift power : Int) :
    readScaled negative significand shift ('e' :: (if power < 0 then '-' else '+') ::
        (Nat.toDigits 10 power.natAbs ++ rest)) =
      (scaled significand (shift + power)).map
        fun x => (.binary (if negative then -x else x), rest) := by
  have hread := readExponent_signed hr power
  unfold readScaled
  show (readExponent _ >>= _) = _
  rw [hread]
  rfl

/-! ## The layouts of a magnitude -/

end Json

namespace Decimal

variable {d : Decimal}

theorem digits_length_pos (d : Decimal) : 0 < d.digits.length := Nat.length_toDigits_pos

theorem allDigits_digits (d : Decimal) : AllDigits d.digits := allDigits_toDigits d.coefficient

theorem digits_value (d : Decimal) : digitsToNat d.digits = d.coefficient :=
  digitsToNat_toDigits d.coefficient

theorem whole_digits_append (h : 0 < d.coefficient) {more : List Char} (hmore : AllDigits more) :
    Json.Whole (d.digits ++ more) := by
  refine .of_head (d.allDigits_digits.append hmore) ?_
  have hhead := head?_toDigits h
  obtain ⟨c, rest, hc⟩ := List.exists_cons_of_length_pos d.digits_length_pos
  unfold digits at hc ⊢
  rw [hc] at hhead ⊢
  exact hhead

theorem whole_digits_take (h : 0 < d.coefficient) {n : Nat} (hn : 0 < n) :
    Json.Whole (d.digits.take n) := by
  refine .of_head (fun c hc => d.allDigits_digits c (List.mem_of_mem_take hc)) ?_
  rw [List.head?_take, if_neg (Nat.ne_of_gt hn)]
  exact head?_toDigits h

/-- The point bounds the number of digits, and with it the significand. -/
theorem plain_significand_lt (h : 0 < d.coefficient) (he : 0 ≤ d.exponent) (hp : d.point ≤ 16) :
    10 * (10 ^ d.exponent.toNat * d.coefficient) < Json.significandEnd := by
  have hc : d.coefficient < 10 ^ d.digits.length := (toDigits_bounds h).2
  have hpoint : d.exponent.toNat + d.digits.length ≤ 16 := by
    unfold point at hp
    omega
  have hmul : 10 ^ d.exponent.toNat * d.coefficient < 10 ^ 16 :=
    calc 10 ^ d.exponent.toNat * d.coefficient
        < 10 ^ d.exponent.toNat * 10 ^ d.digits.length :=
          Nat.mul_lt_mul_of_pos_left hc (Nat.pow_pos (by decide))
      _ = 10 ^ (d.exponent.toNat + d.digits.length) := (Nat.pow_add 10 _ _).symm
      _ ≤ 10 ^ 16 := Nat.pow_le_pow_right (by decide) hpoint
  unfold Json.significandEnd
  omega

/-- Zeros after whole digits, then a point and one more zero. -/
theorem readNumeral_plain_whole (h : 0 < d.coefficient) (he : 0 ≤ d.exponent) (hp : d.point ≤ 16)
    {rest : List Char} (hr : NoDigitFirst rest) (negative : Bool) :
    Json.readNumeral negative (d.plain ++ ['.', '0'] ++ rest) = Json.readScaled negative
      (10 * (10 ^ d.exponent.toNat * d.coefficient)) (-1) rest := by
  have hplain : d.plain = d.digits ++ List.replicate d.exponent.toNat '0' := if_pos he
  have hvalue : digitsToNat (d.digits ++ List.replicate d.exponent.toNat '0' ++ ['0']) =
      10 * (10 ^ d.exponent.toNat * d.coefficient) := by
    show Nat.ofDigitChars 10 _ 0 = _
    rw [Nat.ofDigitChars_append, Nat.ofDigitChars_append, Nat.ofDigitChars_replicate_zero]
    show 10 * (10 ^ _ * digitsToNat d.digits) + 0 = _
    rw [digits_value]
    rfl
  have hread := Json.readNumeral_fraction
    (whole_digits_append h (allDigits_zeros d.exponent.toNat)) (allDigits_zeros 1) hvalue
    (plain_significand_lt h he hp) rfl (by decide) hr negative
  rw [hplain, List.append_assoc]
  exact hread

/-- A point among the digits. -/
theorem readNumeral_point_inside (h : 0 < d.coefficient)
    (hc : d.coefficient < Json.significandEnd) (he : d.exponent < 0) (hp : 0 < d.point)
    {rest : List Char} (hr : NoDigitFirst rest) (negative : Bool) :
    Json.readNumeral negative (d.plain ++ rest) =
      Json.readScaled negative d.coefficient d.exponent rest := by
  have hlen := d.digits_length_pos
  have hplain : d.plain = d.digits.take d.point.toNat ++ '.' :: d.digits.drop d.point.toNat := by
    unfold plain
    rw [if_neg (by omega), if_pos hp]
  have hvalue : digitsToNat (d.digits.take d.point.toNat ++ d.digits.drop d.point.toNat) =
      d.coefficient := by rw [List.take_append_drop, digits_value]
  have hshift : (-((d.digits.drop d.point.toNat).length : Int)) = d.exponent := by
    rw [List.length_drop]
    unfold point at hp ⊢
    omega
  have hread := Json.readNumeral_fraction (whole_digits_take h (n := d.point.toNat) (by omega))
    (fun c hc => d.allDigits_digits c (List.mem_of_mem_drop hc)) hvalue hc hshift he hr negative
  rw [hplain, List.append_assoc]
  exact hread

/-- A zero before the point, and zeros between the point and the digits. -/
theorem readNumeral_point_before (hc : d.coefficient < Json.significandEnd) (he : d.exponent < 0)
    (hp : d.point ≤ 0) {rest : List Char} (hr : NoDigitFirst rest) (negative : Bool) :
    Json.readNumeral negative (d.plain ++ rest) =
      Json.readScaled negative d.coefficient d.exponent rest := by
  have hplain : d.plain = ['0'] ++ '.' :: (List.replicate (-d.point).toNat '0' ++ d.digits) := by
    unfold plain
    rw [if_neg (by omega), if_neg (by omega)]
    rfl
  have hvalue : digitsToNat (['0'] ++ (List.replicate (-d.point).toNat '0' ++ d.digits)) =
      d.coefficient := by
    show Nat.ofDigitChars 10 (List.replicate _ '0' ++ d.digits) 0 = _
    rw [ofDigitChars_zeros_append]
    exact d.digits_value
  have hshift : (-((List.replicate (-d.point).toNat '0' ++ d.digits).length : Int)) =
      d.exponent := by
    rw [List.length_append, List.length_replicate]
    unfold point at hp ⊢
    omega
  have hread := Json.readNumeral_fraction Json.whole_zero
    ((allDigits_zeros (-d.point).toNat).append d.allDigits_digits) hvalue hc hshift he hr negative
  rw [hplain, List.append_assoc]
  exact hread

/-- One digit before the point, if there is a point, and an exponent. -/
theorem readNumeral_scientific (h : 0 < d.coefficient) (hc : d.coefficient < Json.significandEnd)
    {rest : List Char} (hr : NoDigitFirst rest) (negative : Bool) :
    Json.readNumeral negative (d.scientific ++ rest) =
      (Json.scaled d.coefficient d.exponent).map
        fun x => (.binary (if negative then -x else x), rest) := by
  have hlen := d.digits_length_pos
  unfold scientific
  dsimp only
  split
  · -- a single digit stands without a point
    rename_i hone
    have htake : d.digits.take 1 = d.digits := List.take_of_length_le hone
    have hshift : (0 : Int) + (d.point - 1) = d.exponent := by
      unfold point
      omega
    have hwhole : Json.Whole d.digits := Json.whole_toDigits d.coefficient
    have hread := Json.readNumeral_exponent ((if d.point - 1 < 0 then '-' else '+') ::
        (Nat.toDigits 10 (d.point - 1).natAbs ++ rest)) hwhole (by rwa [digits_value]) negative
    rw [digits_value, Json.readScaled_exponent hr, hshift] at hread
    rw [htake, List.append_nil, List.append_assoc]
    exact hread
  · -- the digits after the point are made up for by the exponent
    rename_i hmore
    have hvalue : digitsToNat (d.digits.take 1 ++ d.digits.drop 1) = d.coefficient := by
      rw [List.take_append_drop, digits_value]
    have hlength : (d.digits.drop 1).length = d.digits.length - 1 := List.length_drop
    have hshift : -((d.digits.drop 1).length : Int) + (d.point - 1) = d.exponent := by
      unfold point
      omega
    have hexponent : NoDigitFirst ('e' :: (if d.point - 1 < 0 then '-' else '+') ::
        (Nat.toDigits 10 (d.point - 1).natAbs ++ rest)) := noDigitFirst_cons rfl
    have hread := Json.readNumeral_fraction (whole_digits_take h Nat.one_pos)
      (fun c hc => d.allDigits_digits c (List.mem_of_mem_drop hc)) hvalue hc rfl (by omega)
      hexponent negative
    rw [Json.readScaled_exponent hr, hshift] at hread
    rw [List.append_assoc, List.append_assoc]
    exact hread

end Decimal

/-! ## Numbers -/

/-- A digit comes first. -/
def DigitFirst (text : List Char) : Prop := ∃ c rest, text = c :: rest ∧ c.isDigit = true

theorem DigitFirst.append {text : List Char} (h : DigitFirst text) (more : List Char) :
    DigitFirst (text ++ more) := by
  obtain ⟨c, rest, rfl, hc⟩ := h
  exact ⟨c, rest ++ more, rfl, hc⟩

theorem AllDigits.digitFirst {digits : List Char} (h : AllDigits digits)
    (hpos : 0 < digits.length) : DigitFirst digits := by
  obtain ⟨c, rest, rfl⟩ := List.exists_cons_of_length_pos hpos
  exact ⟨c, rest, rfl, h c List.mem_cons_self⟩

theorem Decimal.digitFirst_digits (d : Decimal) : DigitFirst d.digits :=
  d.allDigits_digits.digitFirst d.digits_length_pos

theorem Decimal.digitFirst_take (d : Decimal) {n : Nat} (hn : 0 < n) :
    DigitFirst (d.digits.take n) := by
  refine AllDigits.digitFirst (fun c hc => d.allDigits_digits c (List.mem_of_mem_take hc)) ?_
  have hlen := d.digits_length_pos
  rw [List.length_take]
  omega

theorem Decimal.digitFirst_plain (d : Decimal) : DigitFirst d.plain := by
  unfold plain
  split
  · exact d.digitFirst_digits.append _
  · split
    · rename_i hpoint
      exact (d.digitFirst_take (by omega)).append _
    · exact ⟨'0', _, rfl, rfl⟩

theorem digitFirst_magnitudeNumeral (x : Magnitude) : DigitFirst (magnitudeNumeral x) := by
  unfold magnitudeNumeral
  dsimp only
  split
  · exact ⟨'0', _, rfl, rfl⟩
  · split
    · split
      · exact (Decimal.digitFirst_plain _).append _
      · exact Decimal.digitFirst_plain _
    · unfold Decimal.scientific
      dsimp only
      rw [List.append_assoc]
      exact (Decimal.digitFirst_take _ Nat.one_pos).append _

namespace Json

theorem readNumber_of_digitFirst {text : List Char} (h : DigitFirst text) :
    readNumber text = readNumeral false text := by
  obtain ⟨c, rest, rfl, hc⟩ := h
  have hminus : c ≠ '-' := by
    rintro rfl
    exact Bool.noConfusion hc
  simp [readNumber, hminus, hc]

theorem readNumber_minus {text : List Char} (h : DigitFirst text) :
    readNumber ('-' :: text) = readNumeral true text := by
  obtain ⟨c, rest, rfl, hc⟩ := h
  unfold readNumber
  simp only [hc, if_true]

/-- The digits of a magnitude are read as `Magnitude.reread` says. -/
theorem readNumeral_magnitudeNumeral (x : Magnitude) {rest : List Char} (hr : Follows rest)
    (negative : Bool) :
    readNumeral negative (magnitudeNumeral x ++ rest) =
      x.reread.map fun y => (.binary (if negative then -y else y), rest) := by
  unfold magnitudeNumeral Magnitude.reread
  by_cases h0 : x.units = 0
  · rw [if_pos h0, if_pos h0, ← readScaled_end hr]
    exact readNumeral_fraction whole_zero (allDigits_zeros 1) rfl (by decide) rfl (by decide)
      hr.noDigitFirst negative
  · rw [if_neg h0, if_neg h0]
    obtain ⟨hpos, hle⟩ := Magnitude.shortest_coefficient_bounds .toEven h0
    have hlt : (x.shortest .toEven).coefficient < significandEnd :=
      Nat.lt_of_le_of_lt hle (by decide)
    generalize x.shortest .toEven = d at hpos hlt
    dsimp only
    -- one case for each layout: plain with or without a fraction, and scientific
    by_cases hplain : -5 < d.point ∧ d.point ≤ 16
    · rw [if_pos hplain]
      by_cases he : 0 ≤ d.exponent
      · rw [if_pos he, if_pos ⟨hplain, he⟩, ← readScaled_end hr]
        exact Decimal.readNumeral_plain_whole hpos he hplain.2 hr.noDigitFirst negative
      · rw [if_neg he, if_neg fun h => he h.2, ← readScaled_end hr]
        have he := Int.not_le.mp he
        by_cases hpoint : 0 < d.point
        · exact Decimal.readNumeral_point_inside hpos hlt he hpoint hr.noDigitFirst negative
        · exact Decimal.readNumeral_point_before hlt he (Int.not_lt.mp hpoint) hr.noDigitFirst
            negative
    · rw [if_neg hplain, if_neg fun h => hplain h.1]
      exact Decimal.readNumeral_scientific hpos hlt hr.noDigitFirst negative

/-- **Numbers come back as `JsonNumber.reread` says.** -/
theorem readNumber_numeral {n : JsonNumber} (hn : n.Fits) {rest : List Char} (hr : Follows rest) :
    readNumber (numeral n ++ rest) = n.reread.map fun m => (m, rest) := by
  cases n with
  | natural n =>
      have hdigits := (allDigits_toDigits n).digitFirst Nat.length_toDigits_pos
      have hvalue := digitsToNat_toDigits n
      have hread := readNumeral_whole (whole_toDigits n) (by rw [hvalue]; exact hn) hr false
      rw [hvalue] at hread
      exact (readNumber_of_digitFirst (hdigits.append rest)).trans hread
  | negative n =>
      obtain ⟨hpos, hle⟩ := hn
      have hdigits := (allDigits_toDigits n).digitFirst Nat.length_toDigits_pos
      have hvalue := digitsToNat_toDigits n
      have hread := readNumeral_whole (whole_toDigits n)
        (by rw [hvalue]; exact Nat.lt_of_le_of_lt hle (by decide)) hr true
      -- in this range a sign does not make the number a binary one
      have hinteger : ofInteger true n = .negative n := by
        unfold ofInteger
        rw [if_neg (by simp), if_neg (by omega)]
      rw [hvalue, hinteger] at hread
      exact (readNumber_minus (hdigits.append rest)).trans hread
  | binary x =>
      obtain ⟨s, m, rfl⟩ := isFinite_iff.mp hn
      have hdigits := (digitFirst_magnitudeNumeral m).append rest
      have hread := readNumeral_magnitudeNumeral m hr s
      cases s with
      | false =>
          refine (readNumber_of_digitFirst hdigits).trans (hread.trans ?_)
          show _ = Except.map _ (Except.map _ (Except.map _ _))
          cases m.reread <;> rfl
      | true =>
          refine (readNumber_minus hdigits).trans (hread.trans ?_)
          show _ = Except.map _ (Except.map _ (Except.map _ _))
          cases m.reread <;> rfl

/-! ## Where the numbers that come back lie -/

theorem isFinite_powerOfTen {n : Nat} (h : n ≤ maxPower) : (powerOfTen n).isFinite = true := by
  have hmax : (powerOfTen maxPower).isFinite = true := by decide +kernel
  exact isFinite_of_le (ofNat_nonneg _) (ofNat_le_ofNat (Nat.pow_le_pow_right (by decide) h)) hmax

theorem one_le_powerOfTen (n : Nat) : 1 ≤ powerOfTen n := one_le_ofNat (Nat.pow_pos (by decide))

theorem divideByPower_bounds {x : Binary64} (hx : x.isFinite = true) (h0 : 0 ≤ x) (n : Nat) :
    (divideByPower x n).isFinite = true ∧ 0 ≤ divideByPower x n := by
  have hdiv : ∀ {y : Binary64} {k : Nat}, y.isFinite = true → 0 ≤ y → k ≤ maxPower →
      (y / powerOfTen k).isFinite = true ∧ 0 ≤ y / powerOfTen k := by
    intro y k hy hy0 hk
    have hfin := isFinite_powerOfTen hk
    have hone := one_le_powerOfTen k
    exact ⟨isFinite_div hy hy0 hfin hone, div_nonneg hy0 hfin (key_pos_of_one_le hone)⟩
  unfold divideByPower
  split
  · exact hdiv hx h0 (by assumption)
  · split
    · obtain ⟨hfin, hnonneg⟩ := hdiv hx h0 (Nat.le_refl maxPower)
      exact hdiv hfin hnonneg (by omega)
    · exact ⟨isFinite_zero, ofNat_nonneg 0⟩

/-- A significand that fits is scaled to a finite number, if to any. -/
theorem scaled_bounds {significand : Nat} (hs : significand < significandEnd) {exponent : Int}
    {y : Binary64} (h : scaled significand exponent = .ok y) : y.isFinite = true ∧ 0 ≤ y := by
  have hfin : (Binary64.ofNat significand).isFinite = true := isFinite_ofNat (Nat.le_of_lt hs)
  unfold scaled at h
  dsimp only at h
  split at h
  · split at h
    · obtain rfl := Except.ok.inj h
      exact ⟨isFinite_zero, ofNat_nonneg 0⟩
    · split at h
      · rename_i hpower
        split at h
        · rename_i hproduct
          obtain rfl := Except.ok.inj h
          exact ⟨hproduct, mul_nonneg (ofNat_nonneg _) (isFinite_powerOfTen hpower)
            (key_pos_of_one_le (one_le_powerOfTen _))⟩
        · exact absurd h (by simp)
      · exact absurd h (by simp)
  · obtain rfl := Except.ok.inj h
    exact divideByPower_bounds hfin (ofNat_nonneg _) _

theorem magnitude_reread_bounds {x : Magnitude} {y : Binary64} (h : x.reread = .ok y) :
    y.isFinite = true ∧ 0 ≤ y := by
  unfold Magnitude.reread at h
  split at h
  · exact scaled_bounds (by decide) h
  · rename_i h0
    obtain ⟨hpos, hle⟩ := Magnitude.shortest_coefficient_bounds .toEven h0
    dsimp only at h
    split at h
    · rename_i hplain
      exact scaled_bounds (Decimal.plain_significand_lt hpos hplain.2 hplain.1.2) h
    · exact scaled_bounds (Nat.lt_of_le_of_lt hle (by decide)) h

/-- **A measure that comes back is finite and not negative**, as it was. -/
theorem reread_bounds {x y : Binary64} (hx : x.isFinite = true) (h0 : 0 ≤ x)
    (h : x.reread = .ok y) : y.isFinite = true ∧ 0 ≤ y := by
  obtain ⟨s, m, rfl⟩ := isFinite_iff.mp hx
  have h : m.reread.map (fun y => if s then -y else y) = .ok y := h
  cases hm : m.reread with
  | error cause =>
      rw [hm] at h
      exact absurd h (by simp [Except.map])
  | ok z =>
      rw [hm] at h
      obtain rfl := Except.ok.inj h
      obtain ⟨hz, hz0⟩ := magnitude_reread_bounds hm
      cases s with
      | false => exact ⟨hz, hz0⟩
      | true =>
          -- a sign is left to zero only, which comes back as zero
          have hunits : m.units = 0 := by
            have hkey : 0 ≤ (finite true m).key := (zero_le_iff.mp h0).2
            simp only [key, signedUnits, if_true] at hkey
            omega
          have hzero : z.key = 0 := by
            unfold Magnitude.reread at hm
            rw [if_pos hunits] at hm
            obtain rfl := Except.ok.inj hm
            exact zero_div_key (isFinite_powerOfTen (by decide))
              (key_pos_of_one_le (one_le_powerOfTen _))
          refine ⟨isFinite_neg hz, zero_le_iff.mpr ⟨neg_ne_nan (ne_nan_of_isFinite hz), ?_⟩⟩
          show 0 ≤ (-z).key
          rw [key_neg, hzero]
          decide

end Json

end BenchGate
