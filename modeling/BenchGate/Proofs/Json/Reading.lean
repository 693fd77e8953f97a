import BenchGate.Json.Reader
import BenchGate.Proofs.Except
import BenchGate.Proofs.Json.Numerals

/-!
# What reading promises

A reader takes characters from the front of its text and leaves an end of it as it was. So nothing
that is read outgrows its text: an array has at most as many elements as there are characters.
Numbers are read into the ranges of `JsonNumber.Fits`. Together this makes `parse_fits`, the one
fact about parsed values that the theory of verdicts asks for: a text of fewer than `2 ^ 64`
characters gives a value that fits.

Nothing is said here of which texts are accepted.
-/

namespace BenchGate.Json

open Binary64

attribute [local irreducible] unitsInOne unitsAtTop

variable {text rest : List Char}

/-- A reader that only takes characters from the front. -/
def TakesFront {α : Type} (r : Reader α) : Prop :=
  ∀ {text rest : List Char} {a : α}, r text = .ok (a, rest) → rest <:+ text

theorem skipBlanks_suffix (text : List Char) : skipBlanks text <:+ text :=
  List.dropWhile_suffix isBlank

/-- What comes after the first character behind some blanks. -/
theorem suffix_of_skipBlanks {c : Char} (h : skipBlanks text = c :: rest) : rest <:+ text := by
  have hskip := skipBlanks_suffix text
  rw [h] at hskip
  exact (List.suffix_cons c rest).trans hskip

/-! ## Numbers -/

theorem spanDigits_suffix (text : List Char) : (spanDigits text).2 <:+ text := by
  unfold spanDigits
  rw [List.span_eq_takeWhile_dropWhile]
  exact List.dropWhile_suffix Char.isDigit

theorem splitSign_suffix (text : List Char) : (splitSign text).2 <:+ text := by
  unfold splitSign
  split
  · exact List.suffix_cons _ _
  · exact List.suffix_cons _ _
  · exact List.suffix_rfl

theorem readExponent_takesFront : TakesFront readExponent := by
  intro text rest power h
  have hdigits := (spanDigits_suffix (splitSign text).2).trans (splitSign_suffix text)
  unfold readExponent at h
  dsimp only at h
  split at h
  · cases h
  · split at h
    · cases h
    · cases h
      exact hdigits

/-- A significand stays one, whatever digits are absorbed into it. -/
theorem absorb_lt {significand : Nat} (h : significand < significandEnd) (digits : List Char) :
    (absorb significand digits).1 < significandEnd := by
  induction digits generalizing significand with
  | nil => exact h
  | cons c digits ih =>
      unfold absorb
      dsimp only
      split
      · rename_i hlonger
        exact ih hlonger
      · exact h

theorem ofInteger_fits {n : Nat} (h : n < significandEnd) (negative : Bool) :
    (ofInteger negative n).Fits := by
  unfold ofInteger
  split
  · exact h
  · split
    · exact isFinite_neg (isFinite_ofNat (Nat.le_of_lt h))
    · rename_i hrange
      obtain ⟨hpos, hle⟩ := not_or.mp hrange
      exact ⟨Nat.pos_of_ne_zero hpos, Nat.not_lt.mp hle⟩

theorem readScaled_fits {negative : Bool} {significand : Nat} {shift : Int} {n : JsonNumber}
    (hs : significand < significandEnd)
    (h : readScaled negative significand shift text = .ok (n, rest)) : n.Fits ∧ rest <:+ text := by
  -- what is done after the exponent, if there is one
  have hscaled : ∀ {power : Int} {tail : List Char},
      (scaled significand (shift + power) >>= fun x =>
        (pure (.binary (if negative then -x else x), tail) : Except JsonError _)) = .ok (n, rest) →
      n.Fits ∧ rest = tail := by
    intro power tail h
    obtain ⟨x, hx, h⟩ := exists_ok_of_bind h
    have hfin := (scaled_bounds hs hx).1
    cases h
    refine ⟨?_, rfl⟩
    show Binary64.isFinite (if negative then -x else x) = true
    split
    · exact isFinite_neg hfin
    · exact hfin
  have hexponent : ∀ {c : Char} {tail : List Char},
      (readExponent tail >>= fun p => scaled significand (shift + p.1) >>= fun x =>
        (pure (.binary (if negative then -x else x), p.2) : Except JsonError _)) = .ok (n, rest) →
      n.Fits ∧ rest <:+ c :: tail := by
    intro c tail h
    obtain ⟨p, hp, h⟩ := exists_ok_of_bind h
    obtain ⟨hfits, rfl⟩ := hscaled h
    exact ⟨hfits, (readExponent_takesFront hp).trans (List.suffix_cons c tail)⟩
  unfold readScaled at h
  dsimp only at h
  split at h
  · exact hexponent h
  · exact hexponent h
  · obtain ⟨hfits, rfl⟩ := hscaled h
    exact ⟨hfits, List.suffix_rfl⟩

theorem readNumeral_fits {negative : Bool} {n : JsonNumber}
    (h : readNumeral negative text = .ok (n, rest)) : n.Fits ∧ rest <:+ text := by
  have hwhole := spanDigits_suffix text
  have hlt := absorb_lt (Nat.two_pow_pos 64) (spanDigits text).1
  unfold readNumeral at h
  generalize spanDigits text = span at h hwhole hlt
  obtain ⟨whole, tail⟩ := span
  dsimp only at h hwhole hlt
  split at h
  · cases h
  · split at h
    · rename_i fraction
      -- the fraction goes on from the significand of the whole digits
      have hfraction := ((spanDigits_suffix fraction).trans (List.suffix_cons '.' _)).trans hwhole
      split at h
      · cases h
      · obtain ⟨hfits, hrest⟩ := readScaled_fits (absorb_lt hlt _) h
        exact ⟨hfits, hrest.trans hfraction⟩
    · obtain ⟨hfits, hrest⟩ := readScaled_fits hlt h
      exact ⟨hfits, hrest.trans hwhole⟩
    · obtain ⟨hfits, hrest⟩ := readScaled_fits hlt h
      exact ⟨hfits, hrest.trans hwhole⟩
    · split at h
      · cases h
        exact ⟨ofInteger_fits hlt negative, hwhole⟩
      · obtain ⟨hfits, hrest⟩ := readScaled_fits hlt h
        exact ⟨hfits, hrest.trans hwhole⟩

/-- **A number that was read is in range.** -/
theorem readNumber_fits {n : JsonNumber} (h : readNumber text = .ok (n, rest)) :
    n.Fits ∧ rest <:+ text := by
  unfold readNumber at h
  split at h
  rename_i negative unsigned hsign
  have hunsigned : unsigned <:+ text := by
    split at hsign
    · cases hsign
      exact List.suffix_cons _ _
    · cases hsign
      exact List.suffix_rfl
  split at h
  · cases h
  · split at h
    · obtain ⟨hfits, hrest⟩ := readNumeral_fits h
      exact ⟨hfits, hrest.trans hunsigned⟩
    · cases h

/-! ## Words and strings -/

theorem readWord_takesFront (word : List Char) : TakesFront (readWord word) := by
  induction word with
  | nil =>
      intro text rest a h
      unfold readWord at h
      cases h
      exact List.suffix_rfl
  | cons w word ih =>
      intro text rest a h
      unfold readWord at h
      cases text with
      | nil => cases h
      | cons c text =>
          dsimp only at h
          split at h
          · exact (ih h).trans (List.suffix_cons c text)
          · cases h

theorem readHex_takesFront : TakesFront readHex := by
  intro text rest unit h
  unfold readHex at h
  split at h
  · rename_i a b c d tail
    split at h
    · cases h
      exact ⟨[a, b, c, d], rfl⟩
    · cases h
  · cases h

theorem readUnits_takesFront : TakesFront readUnits := by
  intro text rest c h
  unfold readUnits at h
  obtain ⟨⟨unit, tail⟩, hunit, h⟩ := exists_ok_of_bind h
  have htail := readHex_takesFront hunit
  dsimp only at h
  split at h
  · cases h
  · split at h
    · cases h
      exact htail
    · split at h
      · cases h
      · cases h
      · rename_i after
        obtain ⟨⟨second, tail⟩, hsecond, h⟩ := exists_ok_of_bind h
        have hafter : after <:+ text := (List.suffix_append ['\\', 'u'] after).trans htail
        dsimp only at h
        split at h
        · obtain ⟨-, rfl⟩ := Prod.mk.inj (Except.ok.inj h)
          exact (readHex_takesFront hsecond).trans hafter
        · cases h
      · cases h

theorem readEscape_takesFront : TakesFront readEscape := by
  intro text rest c h
  unfold readEscape at h
  split at h
  · cases h
  all_goals first
    | exact (readUnits_takesFront h).trans (List.suffix_cons _ _)
    | cases h
  all_goals exact List.suffix_cons _ _

theorem readChars_cons (fuel : Nat) (done : List Char) (c : Char) (rest : List Char) :
    readChars (fuel + 1) done (c :: rest) =
      if c = '"' then .ok (done.reverse, rest)
      else if c = '\\' then
        match readEscape rest with
        | .ok (escaped, rest) => readChars fuel (escaped :: done) rest
        | .error cause => .error cause
      else if c < ' ' then .error .controlCharacter
      else readChars fuel (c :: done) rest := rfl

theorem readChars_takesFront (fuel : Nat) :
    ∀ done : List Char, TakesFront (readChars fuel done) := by
  induction fuel with
  | zero =>
      intro done text rest chars h
      cases text with
      | nil => cases h
      | cons c text => cases h
  | succ fuel ih =>
      intro done text rest chars h
      cases text with
      | nil => cases h
      | cons c text =>
          -- the characters go on behind an escape, or behind the character itself
          have hmore : ∀ {c : Char} {done tail : List Char}, tail <:+ text →
              readChars fuel done tail = .ok (chars, rest) → rest <:+ c :: text :=
            fun htail h => ((ih _ h).trans htail).trans (List.suffix_cons _ _)
          rw [readChars_cons] at h
          split at h
          · cases h
            exact List.suffix_cons _ _
          · split at h
            · split at h
              · rename_i hescape
                exact hmore (readEscape_takesFront hescape) h
              · cases h
            · split at h
              · cases h
              · exact hmore List.suffix_rfl h

theorem readString_takesFront : TakesFront readString := by
  intro text rest s h
  obtain ⟨⟨chars, tail⟩, hchars, h⟩ := exists_ok_of_bind h
  cases h
  exact readChars_takesFront _ _ hchars

/-! ## Arrays and objects -/

theorem readElementSeparator_takesFront : TakesFront readElementSeparator := by
  intro text rest next h
  unfold readElementSeparator at h
  split at h
  · cases h
  · rename_i hskip
    cases h
    exact suffix_of_skipBlanks hskip
  · rename_i tail hskip
    have htail := suffix_of_skipBlanks hskip
    split at h
    · cases h
    · cases h
    · cases h
      exact (skipBlanks_suffix tail).trans htail
  · cases h

theorem readFieldSeparator_takesFront : TakesFront readFieldSeparator := by
  intro text rest next h
  unfold readFieldSeparator at h
  split at h
  · cases h
  · rename_i hskip
    cases h
    exact suffix_of_skipBlanks hskip
  · rename_i tail hskip
    have htail := suffix_of_skipBlanks hskip
    split at h
    · cases h
    · cases h
    · rename_i hname
      cases h
      rw [← hname]
      exact (skipBlanks_suffix tail).trans htail
    · cases h
  · cases h

theorem readName_takesFront : TakesFront readName := by
  intro text rest name h
  unfold readName at h
  split at h
  · exact (readString_takesFront h).trans (List.suffix_cons _ _)
  · cases h

theorem readColon_takesFront : TakesFront readColon := by
  intro text rest a h
  unfold readColon at h
  split at h
  · cases h
  · rename_i hskip
    cases h
    exact suffix_of_skipBlanks hskip
  · cases h

/-- A reader of values that fit, from texts that are short enough. -/
def ReadsFitting (r : Reader Json) : Prop :=
  ∀ {text rest : List Char} {v : Json}, text.length < 2 ^ 64 → r text = .ok (v, rest) →
    v.Fits ∧ rest <:+ text

theorem readElements_succ (element : Reader Json) (fuel : Nat) (done : List Json)
    (text : List Char) :
    readElements element (fuel + 1) done text = (do
      let (value, rest) ← element text
      match ← readElementSeparator rest with
      | (.done, rest) => return ((value :: done).reverse, rest)
      | (.another, rest) => readElements element fuel (value :: done) rest) := rfl

/-- The fuel bounds how many elements there are. -/
theorem readElements_fits {element : Reader Json} (helement : ReadsFitting element) (fuel : Nat) :
    ∀ {done : List Json} {text rest : List Char} {vs : List Json}, text.length < 2 ^ 64 →
      (∀ v ∈ done, v.Fits) → readElements element fuel done text = .ok (vs, rest) →
      (∀ v ∈ vs, v.Fits) ∧ vs.length ≤ done.length + fuel ∧ rest <:+ text := by
  induction fuel with
  | zero =>
      intro done text rest vs _ _ h
      cases h
  | succ fuel ih =>
      intro done text rest vs hlen hdone h
      rw [readElements_succ] at h
      obtain ⟨⟨v, tail⟩, hv, h⟩ := exists_ok_of_bind h
      obtain ⟨⟨next, after⟩, hnext, h⟩ := exists_ok_of_bind h
      obtain ⟨hfits, htail⟩ := helement hlen hv
      have hafter := (readElementSeparator_takesFront hnext).trans htail
      have hall : ∀ w ∈ v :: done, w.Fits := List.forall_mem_cons.mpr ⟨hfits, hdone⟩
      -- one round takes one unit of fuel and adds one element
      cases next with
      | done =>
          cases h
          refine ⟨fun w hw => hall w (List.mem_reverse.mp hw), ?_, hafter⟩
          rw [List.length_reverse, List.length_cons]
          omega
      | another =>
          obtain ⟨hvs, hcount, hrest⟩ := ih (Nat.lt_of_le_of_lt hafter.length_le hlen) hall h
          rw [List.length_cons] at hcount
          exact ⟨hvs, by omega, hrest.trans hafter⟩

theorem readFields_succ (element : Reader Json) (fuel : Nat) (done : List (String × Json))
    (text : List Char) :
    readFields element (fuel + 1) done text = (do
      let (name, rest) ← readName text
      let ((), rest) ← readColon rest
      let (value, rest) ← element rest
      match ← readFieldSeparator rest with
      | (.done, rest) => return (((name, value) :: done).reverse, rest)
      | (.another, rest) => readFields element fuel ((name, value) :: done) rest) := rfl

theorem readFields_fits {element : Reader Json} (helement : ReadsFitting element) (fuel : Nat) :
    ∀ {done : List (String × Json)} {text rest : List Char} {fields : List (String × Json)},
      text.length < 2 ^ 64 → (∀ f ∈ done, f.2.Fits) →
      readFields element fuel done text = .ok (fields, rest) →
      (∀ f ∈ fields, f.2.Fits) ∧ rest <:+ text := by
  induction fuel with
  | zero =>
      intro done text rest fields _ _ h
      cases h
  | succ fuel ih =>
      intro done text rest fields hlen hdone h
      rw [readFields_succ] at h
      obtain ⟨⟨name, afterName⟩, hname, h⟩ := exists_ok_of_bind h
      obtain ⟨⟨⟨⟩, start⟩, hcolon, h⟩ := exists_ok_of_bind h
      have hstart := (readColon_takesFront hcolon).trans (readName_takesFront hname)
      obtain ⟨⟨v, tail⟩, hv, h⟩ := exists_ok_of_bind h
      obtain ⟨⟨next, after⟩, hnext, h⟩ := exists_ok_of_bind h
      obtain ⟨hfits, htail⟩ := helement (Nat.lt_of_le_of_lt hstart.length_le hlen) hv
      have hafter := ((readFieldSeparator_takesFront hnext).trans htail).trans hstart
      have hall : ∀ f ∈ (name, v) :: done, f.2.Fits := List.forall_mem_cons.mpr ⟨hfits, hdone⟩
      cases next with
      | done =>
          cases h
          exact ⟨fun f hf => hall f (List.mem_reverse.mp hf), hafter⟩
      | another =>
          obtain ⟨hfields, hrest⟩ := ih (Nat.lt_of_le_of_lt hafter.length_le hlen) hall h
          exact ⟨hfields, hrest.trans hafter⟩

theorem readArray_fits {element : Reader Json} (helement : ReadsFitting element) :
    ReadsFitting (readArray element) := by
  intro text rest v hlen h
  unfold readArray at h
  split at h
  · cases h
  · rename_i hskip
    cases h
    exact ⟨.array (Nat.two_pow_pos 64) (List.forall_mem_nil _), suffix_of_skipBlanks hskip⟩
  · obtain ⟨⟨vs, tail⟩, hvs, h⟩ := exists_ok_of_bind h
    cases h
    have hskip := skipBlanks_suffix text
    have hshort := Nat.lt_of_le_of_lt hskip.length_le hlen
    obtain ⟨hfits, hcount, hrest⟩ := readElements_fits helement _ hshort (List.forall_mem_nil _) hvs
    rw [List.length_nil, Nat.zero_add] at hcount
    exact ⟨.array (Nat.lt_of_le_of_lt hcount hshort) hfits, hrest.trans hskip⟩

theorem readObject_fits {element : Reader Json} (helement : ReadsFitting element) :
    ReadsFitting (readObject element) := by
  intro text rest v hlen h
  unfold readObject at h
  split at h
  · cases h
  · rename_i hskip
    cases h
    exact ⟨.object (List.forall_mem_nil _), suffix_of_skipBlanks hskip⟩
  · obtain ⟨⟨fields, tail⟩, hfields, h⟩ := exists_ok_of_bind h
    cases h
    have hskip := skipBlanks_suffix text
    have hshort := Nat.lt_of_le_of_lt hskip.length_le hlen
    obtain ⟨hfits, hrest⟩ := readFields_fits helement _ hshort (List.forall_mem_nil _) hfields
    exact ⟨.object hfits, hrest.trans hskip⟩

/-! ## Values -/

/-- A word that stands for a value. -/
theorem readWord_then {word : List Char} {v w : Json}
    (h : (readWord word text >>= fun p => (pure (v, p.2) : Except JsonError _)) = .ok (w, rest)) :
    w = v ∧ rest <:+ text := by
  obtain ⟨p, hp, h⟩ := exists_ok_of_bind h
  cases h
  exact ⟨rfl, readWord_takesFront word hp⟩

theorem readValueWith_fits {element : Reader Json} (helement : ReadsFitting element) :
    ReadsFitting (readValueWith element) := by
  intro text rest v hlen h
  have hskip := skipBlanks_suffix text
  unfold readValueWith at h
  split at h
  · cases h
  · rename_i hword
    obtain ⟨rfl, hrest⟩ := readWord_then h
    exact ⟨.null, hrest.trans (suffix_of_skipBlanks hword)⟩
  · rename_i hword
    obtain ⟨rfl, hrest⟩ := readWord_then h
    exact ⟨.bool true, hrest.trans (suffix_of_skipBlanks hword)⟩
  · rename_i hword
    obtain ⟨rfl, hrest⟩ := readWord_then h
    exact ⟨.bool false, hrest.trans (suffix_of_skipBlanks hword)⟩
  · rename_i hquote
    obtain ⟨⟨s, tail⟩, htail, h⟩ := exists_ok_of_bind h
    cases h
    exact ⟨.string s, (readString_takesFront htail).trans (suffix_of_skipBlanks hquote)⟩
  · rename_i hopen
    have hinside := suffix_of_skipBlanks hopen
    obtain ⟨hfits, hrest⟩ :=
      readArray_fits helement (Nat.lt_of_le_of_lt hinside.length_le hlen) h
    exact ⟨hfits, hrest.trans hinside⟩
  · rename_i hopen
    have hinside := suffix_of_skipBlanks hopen
    obtain ⟨hfits, hrest⟩ :=
      readObject_fits helement (Nat.lt_of_le_of_lt hinside.length_le hlen) h
    exact ⟨hfits, hrest.trans hinside⟩
  · -- the first character of a number belongs to it
    rename_i hother
    rw [hother] at hskip
    split at h
    · obtain ⟨⟨n, tail⟩, hn, h⟩ := exists_ok_of_bind h
      obtain ⟨hfits, hrest⟩ := readNumber_fits hn
      cases h
      exact ⟨.number hfits, hrest.trans hskip⟩
    · cases h

theorem refuseNesting_fits {value : Reader Json} (h : ReadsFitting value) :
    ReadsFitting (refuseNesting value) := by
  intro text rest v hlen hread
  unfold refuseNesting at hread
  split at hread
  · cases hread
  · cases hread
  · exact h hlen hread

theorem readValue_fits (depth : Nat) : ReadsFitting (readValue depth) := by
  induction depth with
  | zero =>
      -- the reader for elements refuses everything
      refine refuseNesting_fits (readValueWith_fits ?_)
      intro text rest v _ h
      cases h
  | succ depth ih => exact readValueWith_fits ih

/-- **Every value that was read fits**, from any text of fewer than `2 ^ 64` characters. -/
theorem parse_fits {text : String} {v : Json} (hlen : text.toList.length < 2 ^ 64)
    (h : parse text = .ok v) : v.Fits := by
  unfold parse at h
  obtain ⟨⟨w, rest⟩, hread, hfinish⟩ := exists_ok_of_bind h
  have hfits := (readValue_fits maxDepth hlen hread).1
  unfold finish at hfinish
  dsimp only at hfinish
  split at hfinish
  · cases hfinish
    exact hfits
  · cases hfinish

end BenchGate.Json
