import ProgramStream.Proofs.Diagnostic.Units
import ProgramStream.Proofs.Dump.Files
/-!
# Diagnostic files — nothing of a unit is lost in its file

The file of a pack header, a system header or a stream map holds the bytes of its
diagnostic text. These tell the text, and the text tells the unit, with all that
it has of stuffing, descriptors and entries, so two such files hold the same bytes
only if they are of the same unit (`file?_bytes_inj`).
-/

namespace ProgramStream

/-! ## The bytes of a text -/

/-- Bytes are listed one after the other, behind those that were listed before. -/
theorem toList_loop_eq (bytes : ByteArray) (i : Nat) (front : List UInt8) :
    ByteArray.toList.loop bytes i front = front.reverse ++ bytes.data.toList.drop i := by
  fun_induction ByteArray.toList.loop bytes i front with
  | case1 i front hlt ih =>
    have hlength : i < bytes.data.toList.length := hlt
    have hget : bytes.get! i = bytes.data.toList[i] := by
      rw [Array.getElem_toList]
      exact getElem!_pos bytes.data i hlt
    rw [ih, hget, List.drop_eq_getElem_cons hlength, List.reverse_cons, List.append_assoc]
    rfl
  | case2 i front hle =>
    rw [List.drop_eq_nil_of_le (Nat.not_lt.1 hle), List.append_nil]

/-- **A text is told by its bytes.** -/
theorem toUTF8_toList_inj {s t : String} : s.toUTF8.toList = t.toUTF8.toList ↔ s = t := by
  constructor
  · intro h
    rw [ByteArray.toList, ByteArray.toList, toList_loop_eq, toList_loop_eq] at h
    exact String.toByteArray_inj.1 (ByteArray.ext (Array.toList_inj.1 h))
  · rintro rfl
    rfl

namespace Dump

/-! ## The files -/

/-- The kinds of units that a dump keeps the diagnostic text of. -/
def isDiagnosed : StreamUnit.Kind → Bool
  | .pack | .system | .map => true
  | .audio | .video | .streamEnd | .other => false

variable {output : OutputSettings} {r s : Record}

/-- **The file of such a unit** holds its text. -/
theorem exists_file?_eq (hsave : output.saveDiagnostics = true)
    (hr : isDiagnosed r.content.kind = true) :
    ∃ name text, file? output r = some (name, text.toUTF8.toList) ∧
      Diagnostic.text? r.content = some text := by
  have hkept : isKept output r.content.kind = true := by
    revert hr
    cases r.content.kind <;> simp [isDiagnosed, isKept, hsave]
  rw [← isSome_file?] at hkept
  obtain ⟨⟨name, bytes⟩, hfile⟩ := Option.isSome_iff_exists.1 hkept
  obtain ⟨hname, hkeeps⟩ := file?_eq_some_iff.1 hfile
  generalize r.content = u at hr hkeeps ⊢
  cases hkeeps with
  | payload p codec =>
    simp only [StreamUnit.kind] at hr
    split at hr <;> cases hr
  | diagnostic _ htext => exact ⟨name, _, hfile, htext⟩

/-- **Nothing of a unit is lost in its diagnostic file.** -/
theorem file?_bytes_inj (hsave : output.saveDiagnostics = true)
    (hr : isDiagnosed r.content.kind = true) (hs : isDiagnosed s.content.kind = true) :
    ∃ name name' bytes bytes', file? output r = some (name, bytes) ∧
      file? output s = some (name', bytes') ∧ (bytes = bytes' ↔ r.content = s.content) := by
  obtain ⟨name, text, hfile, htext⟩ := exists_file?_eq hsave hr
  obtain ⟨name', text', hfile', htext'⟩ := exists_file?_eq hsave hs
  refine ⟨name, name', _, _, hfile, hfile', toUTF8_toList_inj.trans ?_⟩
  constructor
  · rintro rfl
    exact Diagnostic.text?_inj htext htext'
  · intro hcontent
    rw [hcontent, htext'] at htext
    exact (Option.some.inj htext).symm

/-- A map with two bytes of descriptors. -/
def sampleRecord (first second : UInt8) : Record :=
  ⟨0, 0, .map ⟨12, true, false, 0, 2, [first, second], 0, [], 0⟩⟩

/-- A backslash before a zero digit is not taken for a zero byte before one. -/
theorem file?_backslash :
    OutputSettings.default.saveDiagnostics = true ∧
      isDiagnosed (sampleRecord 0x5C 0x30).content.kind = true ∧
      isDiagnosed (sampleRecord 0x00 0x30).content.kind = true ∧
      ∃ name name' bytes bytes',
        file? OutputSettings.default (sampleRecord 0x5C 0x30) = some (name, bytes) ∧
          file? OutputSettings.default (sampleRecord 0x00 0x30) = some (name', bytes') ∧
          bytes ≠ bytes' := by
  have hsave : OutputSettings.default.saveDiagnostics = true := rfl
  have hr : isDiagnosed (sampleRecord 0x5C 0x30).content.kind = true := rfl
  have hs : isDiagnosed (sampleRecord 0x00 0x30).content.kind = true := rfl
  obtain ⟨name, name', bytes, bytes', hfile, hfile', hsame⟩ := file?_bytes_inj hsave hr hs
  refine ⟨hsave, hr, hs, name, name', bytes, bytes', hfile, hfile', fun heq => ?_⟩
  exact absurd (hsame.1 heq) (by decide)

end Dump

end ProgramStream
