import BenchGate.Proofs.Files.Following
import BenchGate.Results.Loading
import BenchGate.Thresholds.Config

/-!
# What a load depends on

Values, results and thresholds come from files, and from nothing but their bytes. So whatever was
loaded from one tree is loaded from any other tree that gives the same bytes, under the same path or
under another one. Only messages repeat the path.
-/

namespace BenchGate

variable {t s : FileTree} {p : Path} {v : Json} {bytes : ByteArray}

/-! ## Values -/

namespace FileTree

theorem readText_eq_ok_iff {text : String} :
    t.readText p = .ok text ↔
      ∃ bytes, t.readFile p = .ok bytes ∧ String.fromUTF8? bytes = some text := by
  unfold readText
  cases t.readFile p with
  | error cause => simp
  | ok bytes =>
      cases hutf8 : String.fromUTF8? bytes with
      | none => simp [hutf8]
      | some found => simp [hutf8]

theorem pathExists_of_readFile (h : t.readFile p = .ok bytes) : t.pathExists p = true := by
  obtain ⟨e, hlook, -⟩ := exists_ok_of_bind h
  unfold pathExists
  rw [hlook]

theorem readJson_eq_ok_iff :
    t.readJson p = .ok v ↔ ∃ text, t.readText p = .ok text ∧ Json.parse text = .ok v := by
  constructor
  · intro h
    unfold readJson at h
    split at h
    · split at h
      · cases h
      · rename_i text htext
        split at h
        · cases h
        · rename_i value hvalue
          cases h
          exact ⟨text, htext, hvalue⟩
    · cases h
  · rintro ⟨text, htext, hvalue⟩
    obtain ⟨bytes, hbytes, -⟩ := readText_eq_ok_iff.mp htext
    unfold readJson
    rw [if_pos (pathExists_of_readFile hbytes), htext]
    dsimp only
    rw [hvalue]

/-- **A value is read from the bytes of one file**, and from the same bytes it is read again. -/
theorem exists_bytes_of_readJson (h : t.readJson p = .ok v) :
    ∃ bytes, t.readFile p = .ok bytes ∧
      ∀ {s : FileTree} {q : Path}, s.readFile q = .ok bytes → s.readJson q = .ok v := by
  obtain ⟨text, htext, hvalue⟩ := readJson_eq_ok_iff.mp h
  obtain ⟨bytes, hbytes, hutf8⟩ := readText_eq_ok_iff.mp htext
  exact ⟨bytes, hbytes, fun hread =>
    readJson_eq_ok_iff.mpr ⟨text, readText_eq_ok_iff.mpr ⟨bytes, hread, hutf8⟩, hvalue⟩⟩

end FileTree

/-! ## Results -/

namespace Results

variable {origin : Origin} {results : Results}

theorem ofFile_eq_ok_iff :
    ofFile t origin p = .ok results ↔ ∃ v, t.readJson p = .ok v ∧ ofJson origin v = results := by
  constructor
  · intro h
    obtain ⟨v, hv, hresults⟩ := exists_ok_of_bind h
    exact ⟨v, hv, Except.ok.inj hresults⟩
  · rintro ⟨v, hv, rfl⟩
    unfold ofFile
    rw [hv]
    rfl

theorem baselineOfFile?_eq_some_iff :
    baselineOfFile? t p = .ok (some results) ↔ ofFile t .baseline p = .ok results := by
  unfold baselineOfFile?
  split
  · rename_i found hfound
    rw [Except.ok.injEq, Option.some.injEq, hfound, Except.ok.injEq]
  · rename_i path hmissing
    simp [hmissing]
  · rename_i error _ herror
    simp [herror]

theorem baselineOfFile?_eq_none_iff :
    baselineOfFile? t p = .ok none ↔ t.pathExists p = false := by
  unfold baselineOfFile? ofFile FileTree.readJson
  cases t.pathExists p with
  | false => exact ⟨fun _ => rfl, fun _ => rfl⟩
  | true =>
      refine ⟨fun h => ?_, fun h => by cases h⟩
      rw [if_pos rfl] at h
      cases htext : t.readText p with
      | error cause =>
          rw [htext] at h
          cases h
      | ok text =>
          rw [htext] at h
          dsimp only at h
          cases hvalue : Json.parse text with
          | error cause =>
              rw [hvalue] at h
              cases h
          | ok v =>
              rw [hvalue] at h
              cases h

end Results

/-! ## Thresholds -/

theorem Thresholds.accept_eq_ok_iff {r r' : Thresholds} :
    r.accept = .ok r' ↔ r.verify = .ok () ∧ r = r' := by
  unfold accept
  cases hverify : r.verify with
  | ok u => simp
  | error fault => simp

namespace Overrides

variable {o : Overrides} {r : Thresholds}

theorem verify_of_thresholds (h : o.thresholds t = .ok r) : r.verify = .ok () := by
  obtain ⟨base, -, haccept⟩ := exists_ok_of_bind h
  obtain ⟨hverify, rfl⟩ := Thresholds.accept_eq_ok_iff.mp haccept
  exact hverify

theorem base_of_readFile (h : o.base t = .ok r)
    (hsame : ∀ path bytes, o.config = some path → t.readFile path = .ok bytes →
      s.readFile path = .ok bytes) : o.base s = .ok r := by
  unfold base at h ⊢
  split
  · rename_i hnone
    rw [hnone] at h
    exact h
  · rename_i path hpath
    rw [hpath] at h
    obtain ⟨config, hconfig, haccept⟩ := exists_ok_of_bind h
    unfold Thresholds.readConfig at hconfig
    split at hconfig
    · cases hconfig
    · rename_i text htext
      obtain ⟨bytes, hbytes, hutf8⟩ := FileTree.readText_eq_ok_iff.mp htext
      have htext' : s.readText path = .ok text :=
        FileTree.readText_eq_ok_iff.mpr ⟨bytes, hsame path bytes hpath hbytes, hutf8⟩
      unfold Thresholds.ofConfig Thresholds.readConfig
      rw [htext']
      dsimp only
      rw [hconfig]
      exact haccept

/-- **Thresholds depend on no file but the configuration.** -/
theorem thresholds_of_readFile (h : o.thresholds t = .ok r)
    (hsame : ∀ path bytes, o.config = some path → t.readFile path = .ok bytes →
      s.readFile path = .ok bytes) : o.thresholds s = .ok r := by
  obtain ⟨base, hbase, haccept⟩ := exists_ok_of_bind h
  unfold thresholds
  rw [base_of_readFile hbase hsame]
  exact haccept

end Overrides

end BenchGate
