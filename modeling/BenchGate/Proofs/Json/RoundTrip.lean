import BenchGate.Proofs.Json.Reading

/-!
# Reading a document that was written

A document comes back with its structure, its texts, its words and its counts as they were, and with
its measures as `Json.reread` says. Nothing can go wrong but a measure out of range, and the depth
of nesting.

The proof follows the writer. Each reader is given the text of one part followed by some rest that
may stand there, and answers with the part and that very rest; arrays and objects get this of their
parts by induction, and their fuel lasts because every part takes at least one character.
-/

namespace BenchGate

attribute [local irreducible] unitsInOne unitsAtTop

namespace Json

/-! ## What comes back -/

mutual

/-- What a document is read as once it was written. -/
def reread : Json → Except JsonError Json
  | null => .ok null
  | bool b => .ok (bool b)
  | number n => n.reread.map number
  | string s => .ok (string s)
  | array elements => (rereadElements elements).map array
  | object fields => (rereadFields fields).map object

/-- The elements of an array, up to the first that is out of range. -/
def rereadElements : List Json → Except JsonError (List Json)
  | [] => .ok []
  | element :: elements => do
    let v ← reread element
    let vs ← rereadElements elements
    return v :: vs

/-- The fields of an object, up to the first that is out of range. -/
def rereadFields : List (String × Json) → Except JsonError (List (String × Json))
  | [] => .ok []
  | (name, value) :: fields => do
    let v ← reread value
    let vs ← rereadFields fields
    return (name, v) :: vs

end

/-- A value that opens at most `depth` levels, with numbers that have a numeral. -/
inductive Readable : Nat → Json → Prop where
  | null {depth : Nat} : Readable depth null
  | bool {depth : Nat} (b : Bool) : Readable depth (bool b)
  | number {depth : Nat} {n : JsonNumber} : n.Fits → Readable depth (number n)
  | string {depth : Nat} (s : String) : Readable depth (string s)
  | array {depth : Nat} {elements : List Json} :
      (∀ e ∈ elements, Readable depth e) → Readable (depth + 1) (array elements)
  | object {depth : Nat} {fields : List (String × Json)} :
      (∀ f ∈ fields, Readable depth f.2) → Readable (depth + 1) (object fields)

/-! ## Blanks and first characters -/

theorem skipBlanks_of_not_blank {c : Char} (h : isBlank c = false) (rest : List Char) :
    skipBlanks (c :: rest) = c :: rest :=
  List.dropWhile_cons_of_neg (by simp [h])

theorem skipBlanks_newline (level : Nat) (text : List Char) :
    skipBlanks (newline level ++ text) = skipBlanks text := by
  refine List.dropWhile_append_of_pos fun c hc => ?_
  rcases List.mem_cons.mp hc with rfl | h
  · rfl
  · rw [List.eq_of_mem_replicate h]
    rfl

/-- The characters that a number starts with. -/
def numberStarts : List Char := ['-', '0', '1', '2', '3', '4', '5', '6', '7', '8', '9']

theorem mem_numberStarts {c : Char} (h : c.isDigit = true) : c ∈ numberStarts := by
  obtain ⟨hlow, hhigh⟩ := Char.isDigit_iff_toNat.mp h
  have hlow : 48 ≤ c.toNat := hlow
  have hhigh : c.toNat ≤ 57 := hhigh
  rw [← Char.ofNat_toNat c]
  generalize c.toNat = n at hlow hhigh
  have hall : ∀ n < 58, 48 ≤ n → Char.ofNat n ∈ numberStarts := by decide
  exact hall n (by omega) hlow

/-- No number starts like a blank or a bracket. -/
theorem numberStart_apart {c : Char} (h : c ∈ numberStarts) :
    isBlank c = false ∧ (c ≠ '[' ∧ c ≠ '{') ∧ c ≠ ']' ∧ c ≠ '\x7d' := by
  simp only [numberStarts, List.mem_cons, List.not_mem_nil, or_false] at h
  rcases h with rfl | rfl | rfl | rfl | rfl | rfl | rfl | rfl | rfl | rfl | rfl <;> decide

/-- A value comes first: no blank, and no bracket that ends something. -/
def ValueFirst (text : List Char) : Prop :=
  ∃ c rest, text = c :: rest ∧ isBlank c = false ∧ c ≠ ']' ∧ c ≠ '}'

theorem ValueFirst.append {text : List Char} (h : ValueFirst text) (more : List Char) :
    ValueFirst (text ++ more) := by
  obtain ⟨c, rest, rfl, hc⟩ := h
  exact ⟨c, rest ++ more, rfl, hc⟩

/-- A number starts with a digit, after a minus sign or not. -/
theorem numeral_first {n : JsonNumber} (h : n.Fits) :
    ∃ c rest, numeral n = c :: rest ∧ c ∈ numberStarts := by
  cases n with
  | natural n =>
      obtain ⟨c, rest, hc, hdigit⟩ := (allDigits_toDigits n).digitFirst Nat.length_toDigits_pos
      exact ⟨c, rest, hc, mem_numberStarts hdigit⟩
  | negative n => exact ⟨'-', _, rfl, List.mem_cons_self⟩
  | binary x =>
      obtain ⟨s, m, rfl⟩ := Binary64.isFinite_iff.mp h
      cases s with
      | true => exact ⟨'-', _, rfl, List.mem_cons_self⟩
      | false =>
          obtain ⟨c, rest, hc, hdigit⟩ := digitFirst_magnitudeNumeral m
          exact ⟨c, rest, hc, mem_numberStarts hdigit⟩

theorem valueFirst_written {depth : Nat} {v : Json} (h : Readable depth v) (level : Nat) :
    ValueFirst (written level v) := by
  cases h with
  | null => exact ⟨'n', _, rfl, by decide⟩
  | bool b =>
      cases b with
      | true => exact ⟨'t', _, rfl, by decide⟩
      | false => exact ⟨'f', _, rfl, by decide⟩
  | number hn =>
      obtain ⟨c, rest, hc, hmem⟩ := numeral_first hn
      obtain ⟨hblank, -, hclosing⟩ := numberStart_apart hmem
      exact ⟨c, rest, hc, hblank, hclosing⟩
  | string s => exact ⟨'"', _, rfl, by decide⟩
  | @array _ elements _ =>
      cases elements with
      | nil => exact ⟨'[', _, rfl, by decide⟩
      | cons e es => exact ⟨'[', _, rfl, by decide⟩
  | @object _ fields _ =>
      cases fields with
      | nil => exact ⟨'{', _, rfl, by decide⟩
      | cons f fs => exact ⟨'{', _, rfl, by decide⟩

/-! ## Strings -/

theorem hexDigit?_hexDigit {d : Nat} (h : d < 16) : hexDigit? (hexDigit d) = some d := by
  have hall : ∀ d < 16, hexDigit? (hexDigit d) = some d := by decide
  exact hall d h

/-- The escape of a character that has no shorter one. -/
theorem readEscape_control {c : Char} (h : c < ' ') (rest : List Char) :
    readEscape ('u' :: '0' :: '0' :: hexDigit (c.toNat / 16) :: hexDigit (c.toNat % 16) :: rest) =
      .ok (c, rest) := by
  have hc : c.toNat < 32 := h
  have hhex : readHex ('0' :: '0' :: hexDigit (c.toNat / 16) :: hexDigit (c.toNat % 16) :: rest) =
      .ok (c.toNat, rest) := by
    have hzero : hexDigit? '0' = some 0 := rfl
    unfold readHex
    dsimp only
    rw [hzero, hexDigit?_hexDigit (by omega), hexDigit?_hexDigit (by omega)]
    dsimp only
    congr 2
    omega
  -- a code below 32 is no half of a pair
  have htrailing : ¬ isTrailing c.toNat = true := by
    simp only [isTrailing, decide_eq_true_eq]
    omega
  have hleading : ¬ isLeading c.toNat = true := by
    simp only [isLeading, decide_eq_true_eq]
    omega
  show readUnits _ = _
  unfold readUnits
  rw [hhex]
  show (if _ then _ else _) = _
  rw [if_neg htrailing, if_pos hleading, Char.ofNat_toNat]

/-- One character is read from the characters that it is written with. -/
theorem readChars_escaped (c : Char) (fuel : Nat) (done rest : List Char) :
    readChars (fuel + 1) done (escaped c ++ rest) = readChars fuel (c :: done) rest := by
  unfold escaped
  -- the characters with an escape of two characters, one after the other
  by_cases hquote : c = '"'
  · subst hquote
    rfl
  rw [if_neg hquote]
  by_cases hslash : c = '\\'
  · subst hslash
    rfl
  rw [if_neg hslash]
  by_cases hb : c = '\x08'
  · subst hb
    rfl
  rw [if_neg hb]
  by_cases hf : c = '\x0c'
  · subst hf
    rfl
  rw [if_neg hf]
  by_cases hn : c = '\n'
  · subst hn
    rfl
  rw [if_neg hn]
  by_cases hr : c = '\r'
  · subst hr
    rfl
  rw [if_neg hr]
  by_cases ht : c = '\t'
  · subst ht
    rfl
  rw [if_neg ht]
  by_cases hcontrol : c < ' '
  · -- any other control character is written by its code
    have hread := readEscape_control hcontrol rest
    rw [if_pos hcontrol]
    simp only [List.cons_append, List.nil_append]
    rw [readChars_cons, if_neg (by decide), if_pos rfl, hread]
  · rw [if_neg hcontrol]
    simp only [List.cons_append, List.nil_append]
    rw [readChars_cons, if_neg hquote, if_neg hslash, if_neg hcontrol]

theorem readChars_flatMap (chars : List Char) :
    ∀ {fuel : Nat} (done rest : List Char), chars.length < fuel →
      readChars fuel done (chars.flatMap escaped ++ '"' :: rest) =
        .ok (done.reverse ++ chars, rest) := by
  induction chars with
  | nil =>
      intro fuel done rest hfuel
      cases fuel with
      | zero => exact absurd hfuel (Nat.not_lt_zero _)
      | succ fuel => rw [List.append_nil]; rfl
  | cons c chars ih =>
      intro fuel done rest hfuel
      cases fuel with
      | zero => exact absurd hfuel (Nat.not_lt_zero _)
      | succ fuel =>
          rw [List.flatMap_cons, List.append_assoc, readChars_escaped,
            ih (c :: done) rest (Nat.lt_of_succ_lt_succ hfuel), List.reverse_cons,
            List.append_assoc]
          rfl

theorem escaped_ne_nil (c : Char) : escaped c ≠ [] := by
  unfold escaped
  repeat' split
  all_goals exact List.cons_ne_nil _ _

theorem length_le_flatMap_escaped (chars : List Char) :
    chars.length ≤ (chars.flatMap escaped).length := by
  induction chars with
  | nil => exact Nat.le_refl 0
  | cons c chars ih =>
      have hpos := List.length_pos_iff.mpr (escaped_ne_nil c)
      rw [List.flatMap_cons, List.length_append, List.length_cons]
      omega

/-- **Strings come back as they were.** -/
theorem readString_quoted (s : String) (rest : List Char) :
    readString (s.toList.flatMap escaped ++ '"' :: rest) = .ok (s, rest) := by
  have hlen : s.toList.length < (s.toList.flatMap escaped ++ '"' :: rest).length := by
    have hle := length_le_flatMap_escaped s.toList
    rw [List.length_append, List.length_cons]
    omega
  unfold readString
  rw [readChars_flatMap s.toList [] rest hlen]
  show Except.ok (String.ofList s.toList, rest) = _
  rw [String.ofList_toList]

/-! ## Arrays and objects -/

/-- A reader that reads one value back, in front of anything that may follow it. -/
def ReadsBack (element : Reader Json) (level : Nat) (v : Json) : Prop :=
  ∀ rest, Follows rest → element (written level v ++ rest) = v.reread.map fun w => (w, rest)

theorem follows_writtenElements (level inner : Nat) (elements : List Json) (rest : List Char) :
    Follows (writtenElements inner elements ++ (newline level ++ rest)) := by
  cases elements with
  | nil => exact .line _
  | cons e es => exact .comma _

theorem readElementSeparator_another (text : List Char) :
    readElementSeparator (',' :: text) =
      match skipBlanks text with
      | [] => .error .endInValue
      | ']' :: _ => .error .trailingComma
      | rest => .ok (.another, rest) := rfl

theorem readElementSeparator_comma {text : List Char} (h : ValueFirst text) (level : Nat) :
    readElementSeparator (',' :: (newline level ++ text)) = .ok (.another, text) := by
  obtain ⟨c, rest, rfl, hblank, hclose, -⟩ := h
  rw [readElementSeparator_another, skipBlanks_newline, skipBlanks_of_not_blank hblank]
  split
  · rename_i heq
    exact absurd heq (List.cons_ne_nil _ _)
  · rename_i heq
    exact absurd (List.cons.inj heq).1 hclose
  · rfl

theorem readElementSeparator_close (level : Nat) (rest : List Char) :
    readElementSeparator (newline level ++ (']' :: rest)) = .ok (.done, rest) := by
  unfold readElementSeparator
  rw [skipBlanks_newline, skipBlanks_of_not_blank rfl]
  rfl

theorem readElements_written {element : Reader Json} {inner : Nat} (level : Nat)
    (rest : List Char) (elements : List Json) :
    ∀ (first : Json) {fuel : Nat} (done : List Json),
      (∀ e ∈ first :: elements, ReadsBack element inner e ∧ ValueFirst (written inner e)) →
      elements.length < fuel →
      readElements element fuel done (written inner first ++
          (writtenElements inner elements ++ (newline level ++ ']' :: rest))) =
        (rereadElements (first :: elements)).map fun vs => (done.reverse ++ vs, rest) := by
  induction elements with
  | nil =>
      intro first fuel done helements hfuel
      obtain ⟨fuel, rfl⟩ := Nat.exists_eq_succ_of_ne_zero (Nat.ne_zero_of_lt hfuel)
      have hread := (helements first List.mem_cons_self).1 (newline level ++ ']' :: rest) (.line _)
      have hclose := readElementSeparator_close level rest
      rw [writtenElements, List.nil_append, readElements_succ, hread, rereadElements]
      cases first.reread with
      | error cause => rfl
      | ok v =>
          show (readElementSeparator (newline level ++ ']' :: rest) >>= _) = _
          rw [hclose]
          show Except.ok ((v :: done).reverse, rest) = Except.ok (done.reverse ++ [v], rest)
          rw [List.reverse_cons]
  | cons second elements ih =>
      -- the first element moves over to `done`, and the second one takes its place
      intro first fuel done helements hfuel
      obtain ⟨fuel, rfl⟩ := Nat.exists_eq_succ_of_ne_zero (Nat.ne_zero_of_lt hfuel)
      have hread := (helements first List.mem_cons_self).1
        (writtenElements inner (second :: elements) ++ (newline level ++ ']' :: rest))
        (follows_writtenElements _ _ _ _)
      have hsecond := (helements second (by simp)).2
      rw [readElements_succ, hread, rereadElements]
      cases first.reread with
      | error cause => rfl
      | ok v =>
          have htext : writtenElements inner (second :: elements) ++
                (newline level ++ ']' :: rest) =
              ',' :: (newline inner ++ (written inner second ++
                (writtenElements inner elements ++ (newline level ++ ']' :: rest)))) := by
            rw [writtenElements]
            simp only [List.cons_append, List.append_assoc]
          have hcomma := readElementSeparator_comma (hsecond.append
            (writtenElements inner elements ++ (newline level ++ ']' :: rest))) inner
          have hmore := ih second (v :: done) (fun e he => helements e (List.mem_cons_of_mem _ he))
            (Nat.lt_of_succ_lt_succ hfuel)
          show (readElementSeparator (writtenElements inner (second :: elements) ++
            (newline level ++ ']' :: rest)) >>= _) = _
          rw [htext, hcomma]
          refine hmore.trans ?_
          cases rereadElements (second :: elements) with
          | error cause => rfl
          | ok vs =>
              show Except.ok ((v :: done).reverse ++ vs, rest) =
                Except.ok (done.reverse ++ v :: vs, rest)
              rw [List.reverse_cons, List.append_assoc]
              rfl

theorem follows_writtenFields (level inner : Nat) (fields : List (String × Json))
    (rest : List Char) : Follows (writtenFields inner fields ++ (newline level ++ rest)) := by
  cases fields with
  | nil => exact .line _
  | cons f fs => exact .comma _

theorem readFieldSeparator_another (text : List Char) :
    readFieldSeparator (',' :: text) =
      match skipBlanks text with
      | [] => .error .endInValue
      | '\x7d' :: _ => .error .trailingComma
      | '"' :: rest => .ok (.another, '"' :: rest)
      | _ => .error .nameDue := rfl

theorem readFieldSeparator_comma (level : Nat) (text : List Char) :
    readFieldSeparator (',' :: (newline level ++ '"' :: text)) = .ok (.another, '"' :: text) := by
  rw [readFieldSeparator_another, skipBlanks_newline, skipBlanks_of_not_blank rfl]
  rfl

theorem readFieldSeparator_close (level : Nat) (rest : List Char) :
    readFieldSeparator (newline level ++ ('\x7d' :: rest)) = .ok (.done, rest) := by
  unfold readFieldSeparator
  rw [skipBlanks_newline, skipBlanks_of_not_blank rfl]
  rfl

/-- The name of a field and the colon after it, in front of the value. -/
def fieldStart (name : String) (text : List Char) : List Char :=
  '"' :: (name.toList.flatMap escaped ++ '"' :: ':' :: ' ' :: text)

theorem quoted_append (name : String) (text : List Char) :
    quoted name ++ ':' :: ' ' :: text = fieldStart name text := by
  unfold quoted fieldStart
  simp only [List.cons_append, List.append_assoc, List.nil_append]

/-- After its name and colon, a field is its value and what follows it. -/
theorem readFields_start (element : Reader Json) (fuel : Nat) (done : List (String × Json))
    (name : String) (text : List Char) :
    readFields element (fuel + 1) done (fieldStart name text) = (do
      let (value, rest) ← element (' ' :: text)
      match ← readFieldSeparator rest with
      | (.done, rest) => return (((name, value) :: done).reverse, rest)
      | (.another, rest) => readFields element fuel ((name, value) :: done) rest) := by
  have hname : readName (fieldStart name text) = .ok (name, ':' :: ' ' :: text) :=
    readString_quoted name (':' :: ' ' :: text)
  rw [readFields_succ, hname]
  rfl

theorem readFields_written {element : Reader Json} {inner : Nat} (level : Nat)
    (rest : List Char) (fields : List (String × Json))
    (hblank : ∀ text, element (' ' :: text) = element text) :
    ∀ (first : String × Json) {fuel : Nat} (done : List (String × Json)),
      (∀ f ∈ first :: fields, ReadsBack element inner f.2) → fields.length < fuel →
      readFields element fuel done (fieldStart first.1 (written inner first.2 ++
          (writtenFields inner fields ++ (newline level ++ '\x7d' :: rest)))) =
        (rereadFields (first :: fields)).map fun vs => (done.reverse ++ vs, rest) := by
  induction fields with
  | nil =>
      rintro ⟨name, value⟩ fuel done hfields hfuel
      obtain ⟨fuel, rfl⟩ := Nat.exists_eq_succ_of_ne_zero (Nat.ne_zero_of_lt hfuel)
      have hread := hfields (name, value) List.mem_cons_self (newline level ++ '\x7d' :: rest)
        (.line _)
      have hclose := readFieldSeparator_close level rest
      rw [writtenFields, List.nil_append, readFields_start, hblank, hread, rereadFields]
      dsimp only
      cases value.reread with
      | error cause => rfl
      | ok v =>
          show (readFieldSeparator (newline level ++ '\x7d' :: rest) >>= _) = _
          rw [hclose]
          show Except.ok (((name, v) :: done).reverse, rest) =
            Except.ok (done.reverse ++ [(name, v)], rest)
          rw [List.reverse_cons]
  | cons second fields ih =>
      -- as for elements, with the start of the second field in front of its value
      rintro ⟨name, value⟩ fuel done hfields hfuel
      obtain ⟨fuel, rfl⟩ := Nat.exists_eq_succ_of_ne_zero (Nat.ne_zero_of_lt hfuel)
      have hread := hfields (name, value) List.mem_cons_self
        (writtenFields inner (second :: fields) ++ (newline level ++ '\x7d' :: rest))
        (follows_writtenFields _ _ _ _)
      rw [readFields_start, hblank, hread, rereadFields]
      dsimp only
      cases value.reread with
      | error cause => rfl
      | ok v =>
          have htext : writtenFields inner (second :: fields) ++ (newline level ++ '\x7d' :: rest) =
              ',' :: (newline inner ++ fieldStart second.1 (written inner second.2 ++
                (writtenFields inner fields ++ (newline level ++ '\x7d' :: rest)))) := by
            rw [writtenFields, ← quoted_append]
            simp only [List.cons_append, List.append_assoc]
          have hcomma := readFieldSeparator_comma inner (second.1.toList.flatMap escaped ++
            '"' :: ':' :: ' ' :: (written inner second.2 ++
              (writtenFields inner fields ++ (newline level ++ '\x7d' :: rest))))
          have hmore := ih second ((name, v) :: done)
            (fun f hf => hfields f (List.mem_cons_of_mem _ hf)) (Nat.lt_of_succ_lt_succ hfuel)
          show (readFieldSeparator (writtenFields inner (second :: fields) ++
            (newline level ++ '\x7d' :: rest)) >>= _) = _
          rw [htext]
          unfold fieldStart at hmore ⊢
          rw [hcomma]
          refine hmore.trans ?_
          cases rereadFields (second :: fields) with
          | error cause => rfl
          | ok vs =>
              show Except.ok (((name, v) :: done).reverse ++ vs, rest) =
                Except.ok (done.reverse ++ (name, v) :: vs, rest)
              rw [List.reverse_cons, List.append_assoc]
              rfl

/-! ## Values -/

/-- A value without parts is read in the same way at any depth. -/
theorem readValue_eq {c : Char} (hblank : isBlank c = false) (harray : c ≠ '[') (hobject : c ≠ '{')
    (depth : Nat) (rest : List Char) :
    ∃ element, readValue depth (c :: rest) = readValueWith element (c :: rest) := by
  cases depth with
  | zero =>
      refine ⟨fun _ => .error .tooDeep, ?_⟩
      unfold readValue refuseNesting
      rw [skipBlanks_of_not_blank hblank]
      split
      · rename_i heq
        exact absurd (List.cons.inj heq).1 harray
      · rename_i heq
        exact absurd (List.cons.inj heq).1 hobject
      · rfl
  | succ depth => exact ⟨_, rfl⟩

theorem readValue_blank (depth : Nat) (text : List Char) :
    readValue depth (' ' :: text) = readValue depth text := by
  cases depth with
  | zero => rfl
  | succ depth => rfl

theorem readValueWith_number {c : Char} (element : Reader Json) (rest : List Char)
    (h : c ∈ numberStarts) :
    readValueWith element (c :: rest) =
      (readNumber (c :: rest)).map fun p => (.number p.1, p.2) := by
  simp only [numberStarts, List.mem_cons, List.not_mem_nil, or_false] at h
  rcases h with rfl | rfl | rfl | rfl | rfl | rfl | rfl | rfl | rfl | rfl | rfl <;> rfl

theorem readValue_number {n : JsonNumber} (hn : n.Fits) (depth level : Nat) :
    ReadsBack (readValue depth) level (number n) := by
  intro rest hr
  obtain ⟨c, tail, hc, hmem⟩ := numeral_first hn
  have hread := readNumber_numeral hn hr
  obtain ⟨hblank, ⟨harray, hobject⟩, -⟩ := numberStart_apart hmem
  rw [hc] at hread
  rw [written, hc]
  obtain ⟨element, helement⟩ := readValue_eq hblank harray hobject depth (tail ++ rest)
  refine helement.trans ((readValueWith_number element (tail ++ rest) hmem).trans ?_)
  rw [List.cons_append] at hread
  rw [hread, reread]
  cases n.reread <;> rfl

theorem readValue_string (s : String) (depth level : Nat) :
    ReadsBack (readValue depth) level (string s) := by
  intro rest _
  have hread := readString_quoted s rest
  obtain ⟨element, helement⟩ := readValue_eq (c := '"') rfl (by decide) (by decide) depth
    (s.toList.flatMap escaped ++ '"' :: rest)
  rw [written]
  unfold quoted
  rw [List.cons_append, List.cons_append, List.append_assoc]
  refine helement.trans ?_
  show (readString _ >>= _) = _
  rw [hread]
  rfl

theorem length_le_writtenElements (level : Nat) (elements : List Json) :
    elements.length ≤ (writtenElements level elements).length := by
  induction elements with
  | nil => exact Nat.le_refl 0
  | cons e es ih =>
      rw [writtenElements, List.cons_append, List.cons_append, List.length_cons, List.length_cons,
        List.length_append]
      omega

theorem length_le_writtenFields (level : Nat) (fields : List (String × Json)) :
    fields.length ≤ (writtenFields level fields).length := by
  induction fields with
  | nil => exact Nat.le_refl 0
  | cons f fs ih =>
      obtain ⟨name, value⟩ := f
      rw [writtenFields]
      simp only [List.cons_append, List.length_cons, List.length_append]
      omega

/-- An array, given that its elements are read back. -/
theorem readArray_written {element : Reader Json} {elements : List Json} (level : Nat)
    (h : ∀ e ∈ elements, ReadsBack element (level + 1) e ∧ ValueFirst (written (level + 1) e))
    (rest : List Char) :
    readValueWith element (written level (array elements) ++ rest) =
      (array elements).reread.map fun w => (w, rest) := by
  cases elements with
  | nil => rfl
  | cons first elements =>
      -- the first element tells the array from an empty one
      have hfirst := (h first List.mem_cons_self).2.append
        (writtenElements (level + 1) elements ++ (newline level ++ ']' :: rest))
      have hfuel : elements.length < (written (level + 1) first ++
          (writtenElements (level + 1) elements ++ (newline level ++ ']' :: rest))).length := by
        have hle := length_le_writtenElements (level + 1) elements
        simp only [List.length_append, List.length_cons]
        omega
      have helements := readElements_written level rest elements first [] h hfuel
      have htext : written level (array (first :: elements)) ++ rest =
          '[' :: (newline (level + 1) ++ (written (level + 1) first ++
            (writtenElements (level + 1) elements ++ (newline level ++ ']' :: rest)))) := by
        rw [written]
        simp only [List.cons_append, List.append_assoc, List.nil_append]
      rw [htext]
      show readArray element _ = _
      generalize hinside : written (level + 1) first ++
        (writtenElements (level + 1) elements ++ (newline level ++ ']' :: rest)) = inside at *
      obtain ⟨c, tail, rfl, hblank, hclose, -⟩ := hfirst
      unfold readArray
      rw [skipBlanks_newline, skipBlanks_of_not_blank hblank]
      split
      · rename_i heq
        exact absurd heq (List.cons_ne_nil _ _)
      · rename_i heq
        exact absurd (List.cons.inj heq).1 hclose
      · show (readElements element _ [] (c :: tail) >>= _) = _
        rw [helements, reread]
        cases rereadElements (first :: elements) <;> rfl

/-- An object, given that the values of its fields are read back. -/
theorem readObject_written {element : Reader Json} {fields : List (String × Json)} (level : Nat)
    (hblank : ∀ text, element (' ' :: text) = element text)
    (h : ∀ f ∈ fields, ReadsBack element (level + 1) f.2) (rest : List Char) :
    readValueWith element (written level (object fields) ++ rest) =
      (object fields).reread.map fun w => (w, rest) := by
  cases fields with
  | nil => rfl
  | cons first fields =>
      have hfuel : fields.length < (fieldStart first.1 (written (level + 1) first.2 ++
          (writtenFields (level + 1) fields ++ (newline level ++ '\x7d' :: rest)))).length := by
        have hle := length_le_writtenFields (level + 1) fields
        unfold fieldStart
        simp only [List.length_append, List.length_cons]
        omega
      have hfields := readFields_written level rest fields hblank first [] h hfuel
      have htext : written level (object (first :: fields)) ++ rest =
          '{' :: (newline (level + 1) ++ fieldStart first.1 (written (level + 1) first.2 ++
            (writtenFields (level + 1) fields ++ (newline level ++ '\x7d' :: rest)))) := by
        rw [written, ← quoted_append]
        simp only [List.cons_append, List.append_assoc, List.nil_append]
      rw [htext]
      -- a name starts with a quote, so the object is not taken for an empty one
      show readObject element _ = _
      unfold readObject
      rw [skipBlanks_newline]
      show (readFields element (fieldStart _ _).length [] (fieldStart _ _) >>= _) = _
      rw [hfields, reread]
      cases rereadFields (first :: fields) <;> rfl

/-- **Values come back as `Json.reread` says**, in front of anything that may follow them. -/
theorem readValue_written {depth : Nat} {v : Json} (h : Readable depth v) :
    ∀ level, ReadsBack (readValue depth) level v := by
  induction h with
  -- words are read letter by letter, whatever follows them
  | @null depth =>
      intro level rest _
      obtain ⟨element, helement⟩ := readValue_eq (c := 'n') rfl (by decide) (by decide) depth
        ('u' :: 'l' :: 'l' :: rest)
      exact helement
  | @bool depth b =>
      intro level rest _
      cases b with
      | true =>
          obtain ⟨element, helement⟩ := readValue_eq (c := 't') rfl (by decide) (by decide) depth
            ('r' :: 'u' :: 'e' :: rest)
          exact helement
      | false =>
          obtain ⟨element, helement⟩ := readValue_eq (c := 'f') rfl (by decide) (by decide) depth
            ('a' :: 'l' :: 's' :: 'e' :: rest)
          exact helement
  | number hn => exact fun level => readValue_number hn _ level
  | string s => exact fun level => readValue_string s _ level
  | array helements ih =>
      intro level rest _
      exact readArray_written level
        (fun e he => ⟨ih e he (level + 1), valueFirst_written (helements e he) (level + 1)⟩) rest
  | object hfields ih =>
      intro level rest _
      exact readObject_written level (readValue_blank _) (fun f hf => ih f hf (level + 1)) rest

/--
**The round trip of documents.** The text of a value whose numbers have a numeral and that is not
nested too deeply is refused only for a measure out of range, and else read as `Json.reread` says.
-/
theorem parse_render {v : Json} (h : Readable maxDepth v) : parse (render v) = v.reread := by
  have hread := readValue_written h 0 [] .ended
  unfold parse render
  rw [String.toList_ofList, ← List.append_nil (written 0 v), hread]
  cases v.reread <;> rfl

end Json

end BenchGate
