import Mathlib.Data.List.DropRight
import BenchGate.Json.Decoder
import BenchGate.Proofs.Json.RoundTrip

/-!
# What a decoder makes of a document

Settings are decoded straight from the text, and no document stands in between. Yet whatever is
decoded is what the plain reader finds in the same text: a decoder that succeeds took exactly the
characters of one JSON value, and what it made of them is a matter of that value alone. `Agrees`
says so of a decoder, for a relation of its own between values and results.

A record agrees as soon as its fields keep an invariant of the entries that were read so far. The
two ways of writing a record come down to one, because an array of values in order is a list of
entries under the names of the fields.
-/

namespace BenchGate

/-! ## What a document gives -/

namespace Json

/--
The entries of a record with fields of these names, which may be missing: an object, or an array of
the values in order.
-/
def entries (names : List String) : Option Json → List (String × Json)
  | some (object fields) => fields
  | some (array elements) => names.zip elements
  | _ => []

/-- What is written for one field of a record: the last entry of its name. -/
def member? (names : List String) (name : String) (v : Option Json) : Option Json :=
  (entries names v).reverse.lookup name

/-- A number, if the value is one. -/
def toAmount? : Json → Option Binary64
  | number n => some n.toBinary64
  | _ => none

/-- A whole number that is not negative, if the value is written as one. -/
def toExactCount? : Json → Option Nat
  | number (.natural n) => some n
  | _ => none

end Json

namespace Decoder

open Json

/--
A decoder takes the characters of one JSON value, which opens at most `depth` levels, and what it
makes of them stands in the relation `gives` to that value.
-/
def Agrees {α : Type} (decoder : Decoder α) (depth : Nat) (gives : Json → α → Prop) : Prop :=
  ∀ ⦃text rest : List Char⦄ ⦃a : α⦄, decoder text = .ok (a, rest) →
    rest <:+ text ∧ ∃ v, readValue depth text = .ok (v, rest) ∧ gives v a

variable {text rest : List Char} {depth : Nat}

theorem lift_eq_ok_iff {α : Type} {read : Reader α} {p : α × List Char} :
    lift read text = .ok p ↔ read text = .ok p := by
  unfold lift
  cases read text with
  | ok q => simp
  | error cause => simp

/-! ## Amounts and counts -/

/-- What is refused gives nothing. -/
theorem refuse_ne_ok {α : Type} (expected : String) (p : α × List Char) :
    refuse expected text ≠ .ok p := by
  intro h
  unfold refuse at h
  dsimp only at h
  split at h
  · cases h
  · cases h
  · obtain ⟨⟨v, tail⟩, -, h⟩ := exists_ok_of_bind h
    cases v <;> cases h

theorem readValue_skipBlanks (depth : Nat) (text : List Char) :
    readValue depth (skipBlanks text) = readValue depth text := by
  have htwice : skipBlanks (skipBlanks text) = skipBlanks text := by
    unfold skipBlanks
    exact List.dropWhile_idempotent _ _
  cases depth with
  | zero =>
      unfold readValue refuseNesting readValueWith
      rw [htwice]
  | succ depth =>
      unfold readValue readValueWith
      rw [htwice]

/-- Where a number begins, the number is the value. -/
theorem readValue_of_number? (depth : Nat) {n : JsonNumber}
    {read : Except DecodeError (JsonNumber × List Char)} (hnumber : number? text = some read)
    (hread : read = .ok (n, rest)) :
    rest <:+ text ∧ readValue depth text = .ok (.number n, rest) := by
  unfold number? at hnumber
  split at hnumber
  · rename_i c tail hskip
    split at hnumber
    · rename_i hstart
      have hn : readNumber (c :: tail) = .ok (n, rest) :=
        lift_eq_ok_iff.mp ((Option.some.inj hnumber).trans hread)
      have hmem : c ∈ numberStarts := by
        rcases hstart with rfl | hdigit
        · exact List.mem_cons_self
        · exact mem_numberStarts hdigit
      obtain ⟨hblank, ⟨harray, hobject⟩, -⟩ := numberStart_apart hmem
      obtain ⟨element, helement⟩ := readValue_eq hblank harray hobject depth tail
      refine ⟨?_, ?_⟩
      · have hsuffix := skipBlanks_suffix text
        rw [hskip] at hsuffix
        exact (readNumber_fits hn).2.trans hsuffix
      · rw [← readValue_skipBlanks, hskip, helement, readValueWith_number element tail hmem, hn]
        rfl
    · cases hnumber
  · cases hnumber

theorem amount_agrees (depth : Nat) : Agrees amount depth fun v x => v.toAmount? = some x := by
  intro text rest x h
  unfold amount at h
  split at h
  · exact absurd h (refuse_ne_ok _ _)
  · rename_i read hnumber
    obtain ⟨⟨n, tail⟩, hread, h⟩ := exists_ok_of_bind h
    cases h
    obtain ⟨hrest, hvalue⟩ := readValue_of_number? depth hnumber hread
    exact ⟨hrest, .number n, hvalue, rfl⟩

theorem count_agrees (depth : Nat) : Agrees count depth fun v n => v.toExactCount? = some n := by
  intro text rest n h
  unfold count at h
  split at h
  · exact absurd h (refuse_ne_ok _ _)
  · rename_i read hnumber
    obtain ⟨⟨n, tail⟩, hread, h⟩ := exists_ok_of_bind h
    obtain ⟨hrest, hvalue⟩ := readValue_of_number? depth hnumber hread
    cases n with
    | natural n =>
        cases h
        exact ⟨hrest, .number (.natural n), hvalue, rfl⟩
    | negative n => cases h
    | binary x => cases h

/-! ## Records -/

variable {σ : Type} {Inv : List (String × Json) → σ → Prop}

/-- Every field keeps an invariant of the entries that were read, the latest of them first. -/
def FieldsKeep (depth : Nat) (Inv : List (String × Json) → σ → Prop)
    (fields : List (RecordField σ)) : Prop :=
  ∀ f ∈ fields, ∀ done r, Inv done r →
    Agrees (f.read r) depth fun v r' => Inv ((f.name, v) :: done) r'

/-- The step of `FieldsKeep` for a field that is stored by `set`. -/
theorem field_keeps {α : Type} {decoder : Decoder α} {gives : Json → α → Prop} {name : String}
    {set : σ → α → σ} {done : List (String × Json)} {r : σ} (h : Agrees decoder depth gives)
    (hset : ∀ v a, gives v a → Inv ((name, v) :: done) (set r a)) :
    Agrees ((field name decoder set).read r) depth fun v r' => Inv ((name, v) :: done) r' := by
  intro text rest r' hread
  obtain ⟨⟨a, tail⟩, ha, hread⟩ := exists_ok_of_bind hread
  cases hread
  obtain ⟨hrest, v, hv, hgives⟩ := h ha
  exact ⟨hrest, v, hv, hset v a hgives⟩

theorem readNamed_succ (fields : List (RecordField σ)) (fuel : Nat) (seen : List String) (r : σ)
    (text : List Char) :
    readNamed fields (fuel + 1) seen r text = (do
      let (name, rest) ← lift readName text
      match fields.find? fun f => f.name = name with
      | none => .error (.unknownField name (fields.map RecordField.name))
      | some f =>
        if name ∈ seen then .error (.duplicateField name)
        else do
          let ((), rest) ← lift readColon rest
          let (record, rest) ← f.read r rest
          match ← lift readFieldSeparator rest with
          | (.done, rest) => return (record, rest)
          | (.another, rest) => readNamed fields fuel (name :: seen) record rest) := rfl

/-- One round of the plain reader through an object. -/
theorem readFields_step {element : Reader Json} {name : String} {v : Json} {next : Next}
    {afterName start tail after : List Char} (fuel : Nat) (done : List (String × Json))
    (hname : readName text = .ok (name, afterName)) (hcolon : readColon afterName = .ok ((), start))
    (hv : element start = .ok (v, tail)) (hnext : readFieldSeparator tail = .ok (next, after)) :
    readFields element (fuel + 1) done text =
      match (next, after) with
      | (.done, rest) => .ok (((name, v) :: done).reverse, rest)
      | (.another, rest) => readFields element fuel ((name, v) :: done) rest := by
  rw [readFields_succ, hname, ok_bind]
  dsimp only
  rw [hcolon, ok_bind]
  dsimp only
  rw [hv, ok_bind]
  dsimp only
  rw [hnext, ok_bind]
  cases next <;> rfl

/-- One round of the plain reader through an array. -/
theorem readElements_step {element : Reader Json} {v : Json} {next : Next}
    {tail after : List Char} (fuel : Nat) (done : List Json) (hv : element text = .ok (v, tail))
    (hnext : readElementSeparator tail = .ok (next, after)) :
    readElements element (fuel + 1) done text =
      match (next, after) with
      | (.done, rest) => .ok ((v :: done).reverse, rest)
      | (.another, rest) => readElements element fuel (v :: done) rest := by
  rw [readElements_succ, hv, ok_bind]
  dsimp only
  rw [hnext, ok_bind]
  cases next <;> rfl

/-- The named fields of a record are those of an object, entry by entry. -/
theorem readNamed_agrees {fields : List (RecordField σ)} (hkeep : FieldsKeep depth Inv fields)
    (fuel : Nat) :
    ∀ {seen : List String} {done : List (String × Json)} {r r' : σ} {text rest : List Char},
      Inv done r → readNamed fields fuel seen r text = .ok (r', rest) →
      rest <:+ text ∧ ∃ entries,
        readFields (readValue depth) fuel done text = .ok (entries, rest) ∧
          Inv entries.reverse r' := by
  induction fuel with
  | zero =>
      intro seen done r r' text rest _ h
      cases h
  | succ fuel ih =>
      intro seen done r r' text rest hinv h
      rw [readNamed_succ] at h
      obtain ⟨⟨name, afterName⟩, hname, h⟩ := exists_ok_of_bind h
      rw [lift_eq_ok_iff] at hname
      dsimp only at h
      -- an unexpected name stops the reading, and so does a name that was there before
      split at h
      · cases h
      · rename_i f hfind
        have hf : f.name = name := by simpa using List.find?_some hfind
        subst hf
        split at h
        · cases h
        · obtain ⟨⟨⟨⟩, start⟩, hcolon, h⟩ := exists_ok_of_bind h
          obtain ⟨⟨record, tail⟩, hrecord, h⟩ := exists_ok_of_bind h
          obtain ⟨⟨next, after⟩, hnext, h⟩ := exists_ok_of_bind h
          rw [lift_eq_ok_iff] at hcolon hnext
          obtain ⟨htail, v, hv, hinv'⟩ :=
            hkeep f (List.mem_of_find?_eq_some hfind) done r hinv hrecord
          have hstart := (readColon_takesFront hcolon).trans (readName_takesFront hname)
          have hafter := ((readFieldSeparator_takesFront hnext).trans htail).trans hstart
          have hround := readFields_step fuel done hname hcolon hv hnext
          cases next with
          | done =>
              cases h
              refine ⟨hafter, _, hround, ?_⟩
              rw [List.reverse_reverse]
              exact hinv'
          | another =>
              obtain ⟨hrest, entries, hentries, hend⟩ := ih hinv' h
              exact ⟨hrest.trans hafter, entries, hround.trans hentries, hend⟩

theorem readElementSeparator_lt (h : readElementSeparator text = .ok (.another, rest)) :
    rest.length < text.length := by
  unfold readElementSeparator at h
  split at h
  · cases h
  · cases h
  · rename_i tail hskip
    have htail := (skipBlanks_suffix text).length_le
    rw [hskip, List.length_cons] at htail
    split at h
    · cases h
    · cases h
    · cases h
      exact Nat.lt_of_le_of_lt (skipBlanks_suffix tail).length_le htail
  · cases h

/-- Where an array may end after the last field of a record, it ends. -/
theorem readElementSeparator_of_readArrayEnd (h : readArrayEnd text = .ok ((), rest)) :
    readElementSeparator text = .ok (.done, rest) := by
  unfold readArrayEnd at h
  split at h
  · cases h
  · rename_i hskip
    cases h
    simp only [readElementSeparator, hskip]
  · split at h <;> cases h
  · cases h

theorem fuel_pos_of_readValue {v : Json} {fuel : Nat} (h : readValue depth text = .ok (v, rest))
    (hfuel : text.length ≤ fuel) : ∃ less, fuel = less + 1 := by
  cases text with
  | nil => cases depth <;> cases h
  | cons c text => exact ⟨fuel - 1, by rw [List.length_cons] at hfuel; omega⟩

/-- One more value in order is one more entry. -/
theorem zip_reverse_cons {before : List String} {done : List Json}
    (hlen : before.length = done.length) (name : String) (after : List String) (v : Json) :
    ((before ++ name :: after).zip (v :: done).reverse).reverse =
      (name, v) :: (before.zip done.reverse).reverse := by
  rw [List.reverse_cons, List.zip_append (by rw [List.length_reverse]; exact hlen),
    List.reverse_append]
  cases after <;> rfl

/-- The fields of a record in order are the elements of an array, under the names of the fields. -/
theorem readInOrder_agrees (fields : List (RecordField σ)) :
    ∀ (before : List String) (done : List Json) {r r' : σ} {fuel : Nat} {text rest : List Char},
      fields ≠ [] → FieldsKeep depth Inv fields → before.length = done.length →
      text.length ≤ fuel → Inv (before.zip done.reverse).reverse r →
      readInOrder fields r text = .ok (r', rest) →
      rest <:+ text ∧ ∃ elements,
        readElements (readValue depth) fuel done text = .ok (elements, rest) ∧
          Inv ((before ++ fields.map RecordField.name).zip elements).reverse r' := by
  induction fields with
  | nil =>
      intro before done r r' fuel text rest hne
      exact absurd rfl hne
  | cons f fields ih =>
      intro before done r r' fuel text rest _ hkeep hlen hfuel hinv h
      -- a value takes a character at least, so there is fuel for it
      have hround : ∀ {record : σ} {tail : List Char}, f.read r text = .ok (record, tail) →
          tail <:+ text ∧ ∃ v less, readValue depth text = .ok (v, tail) ∧ fuel = less + 1 ∧
            Inv ((f.name, v) :: (before.zip done.reverse).reverse) record := by
        intro record tail hrecord
        obtain ⟨htail, v, hv, hinv'⟩ := hkeep f List.mem_cons_self _ r hinv hrecord
        obtain ⟨less, hless⟩ := fuel_pos_of_readValue hv hfuel
        exact ⟨htail, v, less, hv, hless, hinv'⟩
      -- the array may end here, whether or not there are more fields
      have hends : ∀ {record : σ} {tail after : List Char}, f.read r text = .ok (record, tail) →
          readElementSeparator tail = .ok (.done, after) →
          after <:+ text ∧ ∃ elements,
            readElements (readValue depth) fuel done text = .ok (elements, after) ∧
              Inv ((before ++ (f :: fields).map RecordField.name).zip elements).reverse record := by
        intro record tail after hrecord hend
        obtain ⟨htail, v, less, hv, rfl, hinv'⟩ := hround hrecord
        refine ⟨(readElementSeparator_takesFront hend).trans htail, (v :: done).reverse,
          readElements_step less done hv hend, ?_⟩
        rw [List.map_cons, zip_reverse_cons hlen]
        exact hinv'
      cases fields with
      | nil =>
          obtain ⟨⟨record, tail⟩, hrecord, h⟩ := exists_ok_of_bind h
          obtain ⟨⟨⟨⟩, after⟩, hend, h⟩ := exists_ok_of_bind h
          cases h
          exact hends hrecord (readElementSeparator_of_readArrayEnd (lift_eq_ok_iff.mp hend))
      | cons g fields =>
          obtain ⟨⟨record, tail⟩, hrecord, h⟩ := exists_ok_of_bind h
          obtain ⟨⟨next, after⟩, hnext, h⟩ := exists_ok_of_bind h
          rw [lift_eq_ok_iff] at hnext
          cases next with
          | done =>
              cases h
              exact hends hrecord hnext
          | another =>
              obtain ⟨htail, v, less, hv, rfl, hinv'⟩ := hround hrecord
              have hshorter : after.length ≤ less :=
                Nat.le_of_lt_succ (Nat.lt_of_lt_of_le (readElementSeparator_lt hnext)
                  (htail.length_le.trans hfuel))
              rw [← zip_reverse_cons hlen f.name [] v] at hinv'
              obtain ⟨hrest, elements, helements, hend⟩ := ih _ _ (List.cons_ne_nil g fields)
                (fun f' hf' => hkeep f' (List.mem_cons_of_mem f hf'))
                (by rw [List.length_append, hlen]; rfl) hshorter hinv' h
              refine ⟨(hrest.trans (readElementSeparator_takesFront hnext)).trans htail, elements,
                (readElements_step less done hv hnext).trans helements, ?_⟩
              rw [List.append_assoc] at hend
              exact hend

/-- The elements of an array that does not end at once. -/
theorem readArray_of_elements {element : Reader Json} {elements : List Json}
    (hopen : skipBlanks text ≠ []) (hclosed : ∀ tail, skipBlanks text ≠ ']' :: tail)
    (h : readElements element (skipBlanks text).length [] (skipBlanks text) =
      .ok (elements, rest)) :
    readArray element text = .ok (.array elements, rest) := by
  unfold readArray
  split
  · rename_i hend
    exact absurd hend hopen
  · rename_i hend
    exact absurd hend (hclosed _)
  · rw [h]
    rfl

/-- The fields of an object that does not end at once. -/
theorem readObject_of_fields {element : Reader Json} {fields : List (String × Json)}
    (hopen : skipBlanks text ≠ []) (hclosed : ∀ tail, skipBlanks text ≠ '\x7d' :: tail)
    (h : readFields element (skipBlanks text).length [] (skipBlanks text) = .ok (fields, rest)) :
    readObject element text = .ok (.object fields, rest) := by
  unfold readObject
  split
  · rename_i hend
    exact absurd hend hopen
  · rename_i hend
    exact absurd hend (hclosed _)
  · rw [h]
    rfl

theorem readValue_of_bracket {v : Json} {tail : List Char} (hskip : skipBlanks text = '[' :: tail)
    (h : readArray (readValue depth) tail = .ok (v, rest)) :
    readValue (depth + 1) text = .ok (v, rest) := by
  unfold readValue readValueWith
  rw [hskip]
  exact h

theorem readValue_of_brace {v : Json} {tail : List Char} (hskip : skipBlanks text = '\x7b' :: tail)
    (h : readObject (readValue depth) tail = .ok (v, rest)) :
    readValue (depth + 1) text = .ok (v, rest) := by
  unfold readValue readValueWith
  rw [hskip]
  exact h

/-- **A record agrees with the value it is read from**, if its fields keep an invariant. -/
theorem record_agrees {fields : List (RecordField σ)} {standard : σ} (expected : String)
    (hne : fields ≠ []) (hkeep : FieldsKeep depth Inv fields) (hstart : Inv [] standard) :
    Agrees (record expected fields standard) (depth + 1) fun v r =>
      Inv (entries (fields.map RecordField.name) (some v)).reverse r := by
  intro text rest r h
  unfold record at h
  split at h
  · rename_i tail hskip
    have htail := suffix_of_skipBlanks hskip
    split at h
    · cases h
    · rename_i hclose
      cases h
      have hread : readArray (readValue depth) tail = .ok (.array [], rest) := by
        simp only [readArray, hclose]
      refine ⟨(suffix_of_skipBlanks hclose).trans htail, .array [],
        readValue_of_bracket hskip hread, ?_⟩
      show Inv ((fields.map RecordField.name).zip []).reverse standard
      rw [List.zip_nil_right]
      exact hstart
    · rename_i hopen hclosed
      obtain ⟨hrest, elements, helements, hend⟩ := readInOrder_agrees fields [] [] hne hkeep rfl
        (Nat.le_refl _) hstart h
      exact ⟨(hrest.trans (skipBlanks_suffix tail)).trans htail, .array elements,
        readValue_of_bracket hskip (readArray_of_elements hopen hclosed helements), hend⟩
  · rename_i tail hskip
    have htail := suffix_of_skipBlanks hskip
    split at h
    · cases h
    · rename_i hclose
      cases h
      have hread : readObject (readValue depth) tail = .ok (.object [], rest) := by
        simp only [readObject, hclose]
      exact ⟨(suffix_of_skipBlanks hclose).trans htail, .object [],
        readValue_of_brace hskip hread, hstart⟩
    · rename_i hopen hclosed
      obtain ⟨hrest, entries, hentries, hend⟩ := readNamed_agrees hkeep _ hstart h
      exact ⟨(hrest.trans (skipBlanks_suffix tail)).trans htail, .object entries,
        readValue_of_brace hskip (readObject_of_fields hopen hclosed hentries), hend⟩
  · exact absurd h (refuse_ne_ok _ _)

/-- **What is decoded from a text is a matter of the document in it.** -/
theorem parse_of_decode {α : Type} {decoder : Decoder α} {gives : Json → α → Prop} {a : α}
    {text : String} (h : Agrees decoder maxDepth gives) (hdecode : decode decoder text = .ok a) :
    ∃ v, parse text = .ok v ∧ gives v a := by
  unfold decode at hdecode
  obtain ⟨⟨b, rest⟩, hread, hdecode⟩ := exists_ok_of_bind hdecode
  obtain ⟨-, v, hv, hgives⟩ := h hread
  unfold finish at hdecode
  dsimp only at hdecode
  by_cases hblank : (skipBlanks rest).isEmpty = true
  · rw [if_pos hblank] at hdecode
    cases hdecode
    refine ⟨v, ?_, hgives⟩
    unfold parse finish
    rw [hv, ok_bind]
    exact if_pos hblank
  · rw [if_neg hblank] at hdecode
    cases hdecode

end Decoder

end BenchGate
