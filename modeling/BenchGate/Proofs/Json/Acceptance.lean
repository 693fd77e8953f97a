import BenchGate.Proofs.Json.Decoding

/-!
# Which documents are decoded

The other direction of `Decoder.Agrees`: no value is refused that writes what is asked for. What is
made of the value needs no tracking here, since `Agrees` has it, so `Accepts` only says that there
is a result. Settings are then refused for two causes alone: the text is no JSON, or the value in
it is of the wrong kind.

A record is written by an object with some of the fields, each of them once, or by an array of at
most as many values as there are fields. Each value is of the kind of its field.
-/

namespace BenchGate

namespace Json

/-- A value that writes a record with fields of these names, each by a value of its kind. -/
def WritesRecord (kind : String → Json → Prop) (names : List String) : Json → Prop
  | object fields => (fields.map Prod.fst).Nodup ∧ ∀ f ∈ fields, f.1 ∈ names ∧ kind f.1 f.2
  | array elements =>
      elements.length ≤ names.length ∧ ∀ f ∈ names.zip elements, kind f.1 f.2
  | _ => False

variable {text rest : List Char} {v : Json} {element : Reader Json}

/-! ## What a value starts with -/

/-- An array ends at once, or its elements are read. -/
theorem readArray_cases (h : readArray element text = .ok (v, rest)) :
    (skipBlanks text = ']' :: rest ∧ v = .array []) ∨
      (skipBlanks text ≠ [] ∧ (∀ tail, skipBlanks text ≠ ']' :: tail) ∧ ∃ elements,
        readElements element (skipBlanks text).length [] (skipBlanks text) = .ok (elements, rest) ∧
          v = .array elements) := by
  unfold readArray at h
  split at h
  · cases h
  · rename_i hskip
    cases h
    exact .inl ⟨hskip, rfl⟩
  · rename_i hopen hclosed
    obtain ⟨⟨elements, after⟩, helements, h⟩ := exists_ok_of_bind h
    cases h
    exact .inr ⟨hopen, hclosed, elements, helements, rfl⟩

/-- An object ends at once, or its fields are read. -/
theorem readObject_cases (h : readObject element text = .ok (v, rest)) :
    (skipBlanks text = '\x7d' :: rest ∧ v = .object []) ∨
      (skipBlanks text ≠ [] ∧ (∀ tail, skipBlanks text ≠ '\x7d' :: tail) ∧ ∃ fields,
        readFields element (skipBlanks text).length [] (skipBlanks text) = .ok (fields, rest) ∧
          v = .object fields) := by
  unfold readObject at h
  split at h
  · cases h
  · rename_i hskip
    cases h
    exact .inl ⟨hskip, rfl⟩
  · rename_i hopen hclosed
    obtain ⟨⟨fields, after⟩, hfields, h⟩ := exists_ok_of_bind h
    cases h
    exact .inr ⟨hopen, hclosed, fields, hfields, rfl⟩

/-- A value with parts starts with a bracket, and a number with one of its characters. -/
theorem readValueWith_cases (h : readValueWith element text = .ok (v, rest)) :
    match v with
    | .array _ => ∃ tail, skipBlanks text = '[' :: tail ∧ readArray element tail = .ok (v, rest)
    | .object _ =>
        ∃ tail, skipBlanks text = '\x7b' :: tail ∧ readObject element tail = .ok (v, rest)
    | .number n => ∃ c tail, skipBlanks text = c :: tail ∧ (c = '-' ∨ c.isDigit) ∧
        readNumber (c :: tail) = .ok (n, rest)
    | _ => True := by
  unfold readValueWith at h
  split at h
  · cases h
  -- three words and a string
  iterate 4
    obtain ⟨p, -, h⟩ := exists_ok_of_bind h
    cases h
    trivial
  · rename_i tail hskip
    rcases readArray_cases h with ⟨-, rfl⟩ | ⟨-, -, elements, -, rfl⟩
    · exact ⟨tail, hskip, h⟩
    · exact ⟨tail, hskip, h⟩
  · rename_i tail hskip
    rcases readObject_cases h with ⟨-, rfl⟩ | ⟨-, -, fields, -, rfl⟩
    · exact ⟨tail, hskip, h⟩
    · exact ⟨tail, hskip, h⟩
  · rename_i c tail _ _ _ _ _ _ hskip
    split at h
    · rename_i hstart
      obtain ⟨⟨n, after⟩, hn, h⟩ := exists_ok_of_bind h
      cases h
      exact ⟨c, tail, hskip, hstart, hn⟩
    · cases h

/-- The depth decides about brackets only. -/
theorem exists_readValueWith {depth : Nat} (h : readValue depth text = .ok (v, rest)) :
    ∃ element, readValueWith element text = .ok (v, rest) := by
  cases depth with
  | zero =>
      unfold readValue refuseNesting at h
      split at h
      · cases h
      · cases h
      · exact ⟨_, h⟩
  | succ depth => exact ⟨_, h⟩

/-- What was read goes on from what was read before. -/
theorem readElements_extends (fuel : Nat) :
    ∀ {done : List Json} {text rest : List Char} {elements : List Json},
      readElements element fuel done text = .ok (elements, rest) →
      ∃ v more, elements = done.reverse ++ v :: more := by
  induction fuel with
  | zero =>
      intro done text rest elements h
      cases h
  | succ fuel ih =>
      intro done text rest elements h
      rw [readElements_succ] at h
      obtain ⟨⟨v, tail⟩, -, h⟩ := exists_ok_of_bind h
      obtain ⟨⟨next, after⟩, -, h⟩ := exists_ok_of_bind h
      cases next with
      | done =>
          cases h
          exact ⟨v, [], List.reverse_cons⟩
      | another =>
          obtain ⟨w, more, rfl⟩ := ih h
          exact ⟨v, w :: more, by rw [List.reverse_cons, List.append_assoc]; rfl⟩

theorem readFields_extends (fuel : Nat) :
    ∀ {done : List (String × Json)} {text rest : List Char} {entries : List (String × Json)},
      readFields element fuel done text = .ok (entries, rest) →
      ∃ entry more, entries = done.reverse ++ entry :: more := by
  induction fuel with
  | zero =>
      intro done text rest entries h
      cases h
  | succ fuel ih =>
      intro done text rest entries h
      rw [readFields_succ] at h
      obtain ⟨⟨name, afterName⟩, -, h⟩ := exists_ok_of_bind h
      obtain ⟨⟨⟨⟩, start⟩, -, h⟩ := exists_ok_of_bind h
      obtain ⟨⟨v, tail⟩, -, h⟩ := exists_ok_of_bind h
      obtain ⟨⟨next, after⟩, -, h⟩ := exists_ok_of_bind h
      cases next with
      | done =>
          cases h
          exact ⟨(name, v), [], List.reverse_cons⟩
      | another =>
          obtain ⟨entry, more, rfl⟩ := ih h
          exact ⟨(name, v), entry :: more, by rw [List.reverse_cons, List.append_assoc]; rfl⟩

end Json

namespace Decoder

open Json

/-- A decoder gives a result wherever the plain reader finds a value that fits. -/
def Accepts {α : Type} (decoder : Decoder α) (depth : Nat) (fits : Json → Prop) : Prop :=
  ∀ ⦃text rest : List Char⦄ ⦃v : Json⦄, readValue depth text = .ok (v, rest) → fits v →
    ∃ a, decoder text = .ok (a, rest)

variable {text rest : List Char} {depth : Nat}

/-! ## Amounts and counts -/

theorem number?_of_readValue {n : JsonNumber}
    (h : readValue depth text = .ok (.number n, rest)) :
    number? text = some (.ok (n, rest)) := by
  obtain ⟨element, h⟩ := exists_readValueWith h
  obtain ⟨c, tail, hskip, hstart, hn⟩ := readValueWith_cases h
  simp only [number?, hskip, if_pos hstart, lift_eq_ok_iff.mpr hn]

theorem amount_accepts (depth : Nat) : Accepts amount depth fun v => v.toAmount?.isSome := by
  intro text rest v h hfits
  cases v with
  | number n =>
      refine ⟨n.toBinary64, ?_⟩
      unfold amount
      rw [number?_of_readValue h]
      rfl
  | null => cases hfits
  | bool b => cases hfits
  | string s => cases hfits
  | array elements => cases hfits
  | object fields => cases hfits

theorem count_accepts (depth : Nat) : Accepts count depth fun v => v.toExactCount?.isSome := by
  intro text rest v h hfits
  cases v with
  | number n =>
      cases n with
      | natural n =>
          refine ⟨n, ?_⟩
          unfold count
          rw [number?_of_readValue h]
          rfl
      | negative n => cases hfits
      | binary x => cases hfits
  | null => cases hfits
  | bool b => cases hfits
  | string s => cases hfits
  | array elements => cases hfits
  | object fields => cases hfits

/-! ## Records -/

variable {σ : Type} {kind : String → Json → Prop}

/-- Every field takes all values of its kind. -/
def FieldsAccept (depth : Nat) (kind : String → Json → Prop) (fields : List (RecordField σ)) :
    Prop :=
  ∀ f ∈ fields, ∀ r, Accepts (f.read r) depth (kind f.name)

theorem field_accepts {α : Type} {decoder : Decoder α} {fits : Json → Prop}
    (h : Accepts decoder depth fits) (name : String) (set : σ → α → σ) (r : σ) :
    Accepts ((field name decoder set).read r) depth fits := by
  intro text rest v hread hfits
  obtain ⟨a, ha⟩ := h hread hfits
  refine ⟨set r a, ?_⟩
  show (decoder text >>= fun p => pure (set r p.1, p.2)) = _
  rw [ha]
  rfl

/-- An object of fields that are expected, each once and of its kind, is a record. -/
theorem readNamed_accepts {fields : List (RecordField σ)} (hfields : FieldsAccept depth kind fields)
    (fuel : Nat) :
    ∀ {done entries : List (String × Json)} {r : σ} {text rest : List Char},
      readFields (readValue depth) fuel done text = .ok (entries, rest) →
      (entries.map Prod.fst).Nodup →
      (∀ f ∈ entries, f.1 ∈ fields.map RecordField.name ∧ kind f.1 f.2) →
      ∃ r', readNamed fields fuel (done.map Prod.fst) r text = .ok (r', rest) := by
  induction fuel with
  | zero =>
      intro done entries r text rest h
      cases h
  | succ fuel ih =>
      intro done entries r text rest h hnodup hkinds
      rw [readFields_succ] at h
      obtain ⟨⟨name, afterName⟩, hname, h⟩ := exists_ok_of_bind h
      obtain ⟨⟨⟨⟩, start⟩, hcolon, h⟩ := exists_ok_of_bind h
      obtain ⟨⟨v, tail⟩, hv, h⟩ := exists_ok_of_bind h
      obtain ⟨⟨next, after⟩, hnext, h⟩ := exists_ok_of_bind h
      obtain ⟨more, hentries⟩ : ∃ more, entries = done.reverse ++ (name, v) :: more := by
        cases next with
        | done =>
            cases h
            exact ⟨[], List.reverse_cons⟩
        | another =>
            obtain ⟨entry, more, rfl⟩ := readFields_extends fuel h
            exact ⟨entry :: more, by rw [List.reverse_cons, List.append_assoc]; rfl⟩
      -- the name is one of the fields, and it was not there before
      have hnew : name ∉ done.map Prod.fst := by
        rw [hentries, List.map_append, List.nodup_append] at hnodup
        intro hin
        refine hnodup.2.2 name ?_ name List.mem_cons_self rfl
        rw [List.map_reverse]
        exact List.mem_reverse.mpr hin
      obtain ⟨hknown, hkind⟩ := hkinds (name, v) (by rw [hentries]; simp)
      obtain ⟨f, hf, hfname⟩ := List.mem_map.mp hknown
      obtain ⟨g, hfind⟩ : ∃ g, fields.find? (fun f => f.name = name) = some g :=
        Option.isSome_iff_exists.mp (List.find?_isSome.mpr ⟨f, hf, by simpa using hfname⟩)
      have hgname : g.name = name := by simpa using List.find?_some hfind
      obtain ⟨record, hrecord⟩ :=
        hfields g (List.mem_of_find?_eq_some hfind) r hv (by rw [hgname]; exact hkind)
      rw [readNamed_succ, lift_eq_ok_iff.mpr hname, ok_bind]
      simp only [hfind, if_neg hnew]
      rw [lift_eq_ok_iff.mpr hcolon, ok_bind]
      dsimp only
      rw [hrecord, ok_bind]
      dsimp only
      rw [lift_eq_ok_iff.mpr hnext, ok_bind]
      cases next with
      | done =>
          cases h
          exact ⟨record, rfl⟩
      | another => exact ih h hnodup hkinds

/-- Where an array ends, a record may end after its last field. -/
theorem readArrayEnd_of_readElementSeparator
    (h : readElementSeparator text = .ok (.done, rest)) : readArrayEnd text = .ok ((), rest) := by
  unfold readElementSeparator at h
  split at h
  · cases h
  · rename_i hskip
    cases h
    simp only [readArrayEnd, hskip]
  · split at h <;> cases h
  · cases h

/-- An array of values of their kinds, not more than there are fields, is a record. -/
theorem readInOrder_accepts (fields : List (RecordField σ)) :
    ∀ (before : List String) {done elements : List Json} {r : σ} {fuel : Nat}
      {text rest : List Char},
      fields ≠ [] → FieldsAccept depth kind fields → before.length = done.length →
      readElements (readValue depth) fuel done text = .ok (elements, rest) →
      elements.length ≤ before.length + fields.length →
      (∀ f ∈ (before ++ fields.map RecordField.name).zip elements, kind f.1 f.2) →
      ∃ r', readInOrder fields r text = .ok (r', rest) := by
  induction fields with
  | nil =>
      intro before done elements r fuel text rest hne
      exact absurd rfl hne
  | cons f fields ih =>
      intro before done elements r fuel text rest _ hfields hlen h hcount hkinds
      cases fuel with
      | zero => cases h
      | succ fuel =>
          rw [readElements_succ] at h
          obtain ⟨⟨v, tail⟩, hv, h⟩ := exists_ok_of_bind h
          obtain ⟨⟨next, after⟩, hnext, h⟩ := exists_ok_of_bind h
          -- after a comma there is one value more
          obtain ⟨more, helements, hmore⟩ : ∃ more, elements = done.reverse ++ v :: more ∧
              (next = .another → more ≠ []) := by
            cases next with
            | done =>
                cases h
                exact ⟨[], List.reverse_cons, fun hcomma => by cases hcomma⟩
            | another =>
                obtain ⟨w, more, rfl⟩ := readElements_extends fuel h
                exact ⟨w :: more, by rw [List.reverse_cons, List.append_assoc]; rfl,
                  fun _ => List.cons_ne_nil w more⟩
          have hkind : kind f.name v := by
            refine hkinds (f.name, v) ?_
            rw [helements, List.zip_append (by rw [List.length_reverse]; exact hlen)]
            exact List.mem_append_right _ List.mem_cons_self
          obtain ⟨record, hrecord⟩ := hfields f List.mem_cons_self r hv hkind
          cases fields with
          | nil =>
              cases next with
              | done =>
                  cases h
                  refine ⟨record, ?_⟩
                  unfold readInOrder
                  rw [hrecord, ok_bind]
                  dsimp only
                  rw [lift_eq_ok_iff.mpr (readArrayEnd_of_readElementSeparator hnext)]
                  rfl
              | another =>
                  have hpos := List.length_pos_iff.mpr (hmore rfl)
                  rw [helements] at hcount
                  simp only [List.length_append, List.length_reverse, List.length_cons,
                    List.length_nil] at hcount
                  omega
          | cons g fields =>
              unfold readInOrder
              rw [hrecord, ok_bind]
              dsimp only
              rw [lift_eq_ok_iff.mpr hnext, ok_bind]
              cases next with
              | done =>
                  cases h
                  exact ⟨record, rfl⟩
              | another =>
                  refine ih (before ++ [f.name]) (List.cons_ne_nil g fields)
                    (fun f' hf' => hfields f' (List.mem_cons_of_mem f hf'))
                    (by rw [List.length_append, hlen]; rfl) h ?_ ?_
                  · rw [List.length_append]
                    simp only [List.length_cons, List.length_nil] at hcount ⊢
                    omega
                  · rw [List.append_assoc]
                    exact hkinds

/-- **Every value that writes a record is decoded.** -/
theorem record_accepts {fields : List (RecordField σ)} (expected : String) (standard : σ)
    (hne : fields ≠ []) (hfields : FieldsAccept depth kind fields) :
    Accepts (record expected fields standard) (depth + 1)
      (WritesRecord kind (fields.map RecordField.name)) := by
  intro text rest v h hwrites
  have h : readValueWith (readValue depth) text = .ok (v, rest) := h
  unfold record
  cases v with
  | array elements =>
      obtain ⟨tail, hskip, h⟩ := readValueWith_cases h
      simp only [hskip]
      rcases readArray_cases h with ⟨hclose, -⟩ | ⟨hopen, hclosed, found, helements, heq⟩
      · exact ⟨standard, by simp only [hclose]⟩
      · cases heq
        split
        · rename_i hend
          exact absurd hend hopen
        · rename_i hend
          exact absurd hend (hclosed _)
        · refine readInOrder_accepts fields [] hne hfields rfl helements ?_ hwrites.2
          rw [List.length_nil, Nat.zero_add]
          exact hwrites.1.trans_eq (List.length_map _)
  | object entries =>
      obtain ⟨tail, hskip, h⟩ := readValueWith_cases h
      simp only [hskip]
      rcases readObject_cases h with ⟨hclose, -⟩ | ⟨hopen, hclosed, found, hentries, heq⟩
      · exact ⟨standard, by simp only [hclose]⟩
      · cases heq
        split
        · rename_i hend
          exact absurd hend hopen
        · rename_i hend
          exact absurd hend (hclosed _)
        · exact readNamed_accepts hfields _ hentries hwrites.1 hwrites.2
  | null => exact hwrites.elim
  | bool b => exact hwrites.elim
  | number n => exact hwrites.elim
  | string s => exact hwrites.elim

/-- **A text is decoded if it is JSON and the value in it fits.** -/
theorem decode_of_parse {α : Type} {decoder : Decoder α} {fits : Json → Prop} {text : String}
    {v : Json} (h : Accepts decoder maxDepth fits) (hparse : parse text = .ok v) (hfits : fits v) :
    ∃ a, decode decoder text = .ok a := by
  unfold parse at hparse
  obtain ⟨⟨w, rest⟩, hread, hparse⟩ := exists_ok_of_bind hparse
  unfold finish at hparse
  dsimp only at hparse
  by_cases hblank : (skipBlanks rest).isEmpty = true
  · rw [if_pos hblank] at hparse
    cases hparse
    obtain ⟨a, ha⟩ := h hread hfits
    refine ⟨a, ?_⟩
    unfold decode finish
    rw [ha, ok_bind]
    simp only [if_pos hblank]
  · rw [if_neg hblank] at hparse
    cases hparse

end Decoder

end BenchGate
