import BenchGate.Results.Record

/-!
# Where metadata is taken from

A piece of metadata can stand at the top of a record or among its measurements, the tool version
under two keys in either place. What is at the top is meant to take precedence. The search goes from
key to key, though, and looks in both places before it goes on to the next key.

With one key that is the same. With two it is not: a text among the measurements under the first key
hides a text at the top under the second one.
-/

namespace BenchGate

namespace Record

variable (record : Json) (measurements : Option Json)

/-- The text that a value has under a key, if it has one. -/
def textUnder? (v : Option Json) (key : String) : Option String :=
  Json.toText? (v >>= Json.get? key)

/-- The texts that a value has under some keys. -/
def textsUnder (v : Option Json) (keys : List String) : List String :=
  keys.filterMap (textUnder? v)

/-- A piece of metadata for which the top of a record takes precedence over its measurements, given
the texts in either place. -/
structure TopFirst (top nested : List String) (value : String) : Prop where
  of_top : top ≠ [] → value ∈ top
  /-- The measurements are only asked when nothing is at the top. -/
  of_nested : top = [] → nested ≠ [] → value ∈ nested
  /-- Only when nothing is in either place, the piece is empty. -/
  of_none : top = [] → nested = [] → value = ""

/-- The search settles one key in both places before the next one. -/
theorem metadata_cons (key : String) (keys : List String) :
    metadata record measurements (key :: keys) =
      ((textUnder? (some record) key).or (textUnder? measurements key)).getD
        (metadata record measurements keys) := by
  unfold metadata
  dsimp only
  rw [List.findSome?_cons]
  have htop : textUnder? (some record) key = Json.toText? (record.get? key) := rfl
  rw [htop]
  cases Json.toText? (record.get? key) with
  | some text => rfl
  | none =>
      unfold textUnder?
      dsimp only
      cases Json.toText? (measurements >>= Json.get? key) with
      | some text => rfl
      | none => rfl

theorem metadata_nil : metadata record measurements [] = "" := rfl

/-- **Under a single key, the top takes precedence.** -/
theorem metadata_topFirst (key : String) :
    TopFirst (textsUnder (some record) [key]) (textsUnder measurements [key])
      (metadata record measurements [key]) := by
  rw [metadata_cons, metadata_nil]
  unfold textsUnder
  cases htop : textUnder? (some record) key with
  | some text => constructor <;> simp [htop]
  | none =>
      cases hnested : textUnder? measurements key with
      | some text => constructor <;> simp [htop, hnested]
      | none => constructor <;> simp [htop, hnested]

/-- A text among the measurements under the first of two keys, which hides another text that stands
at the top under the second key. -/
structure Hides (first second hidden text : String) : Prop where
  no_first : textUnder? (some record) first = none
  second : textUnder? (some record) second = some hidden
  nested : textUnder? measurements first = some text
  differ : text ≠ hidden

variable {record measurements} in
theorem Hides.metadata_eq {first second hidden text : String}
    (h : Hides record measurements first second hidden text) :
    metadata record measurements [first, second] = text := by
  rw [metadata_cons, h.no_first, h.nested]
  rfl

/-- **Under two keys, the top takes precedence unless a text at the top is hidden.** -/
theorem metadata_topFirst_iff (first second : String) :
    TopFirst (textsUnder (some record) [first, second]) (textsUnder measurements [first, second])
        (metadata record measurements [first, second]) ↔
      ¬ ∃ hidden text, Hides record measurements first second hidden text := by
  constructor
  · rintro htopFirst ⟨hidden, text, h⟩
    have htexts : textsUnder (some record) [first, second] = [hidden] := by
      simp [textsUnder, h.no_first, h.second]
    have hmem := htopFirst.of_top (by simp [htexts])
    rw [h.metadata_eq, htexts] at hmem
    exact h.differ (List.mem_singleton.mp hmem)
  · intro hnot
    rw [metadata_cons, metadata_cons, metadata_nil]
    unfold textsUnder
    cases hfirst : textUnder? (some record) first with
    | some text => constructor <;> simp [hfirst]
    | none =>
        cases hsecond : textUnder? (some record) second with
        | none =>
            -- with nothing at the top, the first text among the measurements is taken
            cases hnested : textUnder? measurements first with
            | some text => constructor <;> simp [hfirst, hsecond, hnested]
            | none =>
                cases hother : textUnder? measurements second with
                | some text => constructor <;> simp [hfirst, hsecond, hnested, hother]
                | none => constructor <;> simp [hfirst, hsecond, hnested, hother]
        | some hidden =>
            cases hnested : textUnder? measurements first with
            | none => constructor <;> simp [hfirst, hsecond]
            | some text =>
                have hsame : text = hidden := Decidable.byContradiction fun hdiffer =>
                  hnot ⟨hidden, text, hfirst, hsecond, hnested, hdiffer⟩
                constructor <;> simp [hfirst, hsecond, hsame]

/-! ## The metadata of a record -/

/-- A field that a record takes from its top rather than from its measurements, under these keys. -/
def TakesTopFirst (v : Json) (keys : List String) (value : String) : Prop :=
  TopFirst (textsUnder (some v) keys) (textsUnder (v.get? "metrics") keys) value

/--
**The top of a record takes precedence, but for a hidden tool version.** A tool version at the top
under `toolVersion` only is hidden by another one among the measurements under `leanVersion`, which
is taken then. In no other record, and for no other piece of metadata, does the top come second.
-/
theorem ofJson_takesTopFirst (v : Json) :
    TakesTopFirst v ["timestamp"] (ofJson v).timestamp ∧
    TakesTopFirst v ["platform"] (ofJson v).platform ∧
    (TakesTopFirst v ["leanVersion", "toolVersion"] (ofJson v).toolVersion ↔
      ¬ ∃ hidden text, Hides v (v.get? "metrics") "leanVersion" "toolVersion" hidden text) ∧
    ∀ hidden text, Hides v (v.get? "metrics") "leanVersion" "toolVersion" hidden text →
      (ofJson v).toolVersion = text :=
  ⟨metadata_topFirst v _ "timestamp", metadata_topFirst v _ "platform",
    metadata_topFirst_iff v _ "leanVersion" "toolVersion", fun _ _ h => h.metadata_eq⟩

/-- The version of the measurements hides the one at the top. -/
theorem ofJson_hidden_toolVersion :
    let v : Json := .object [("toolVersion", .string "4.9.0"),
      ("metrics", .object [("leanVersion", .string "4.8.0")])]
    (ofJson v).toolVersion = "4.8.0" ∧
      ¬ TakesTopFirst v ["leanVersion", "toolVersion"] (ofJson v).toolVersion := by
  intro v
  have hvalue : (ofJson v).toolVersion = "4.8.0" := by decide +kernel
  have htexts : textsUnder (some v) ["leanVersion", "toolVersion"] = ["4.9.0"] := by decide +kernel
  refine ⟨hvalue, fun h => ?_⟩
  unfold TakesTopFirst at h
  rw [htexts, hvalue] at h
  exact absurd (h.of_top (List.cons_ne_nil _ _)) (by decide)

end Record

end BenchGate
