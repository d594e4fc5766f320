import Mathlib.Data.List.Basic
import ProgramStream.Proofs.Section.Basic
import ProgramStream.Section.Association
/-!
# Association sections — their grammar, and what is written in it

A section is some bytes cut into words (`Association.Raw`). It is read
exactly if the length it states is that of its programs and its checksum is
right (`Association.parse_eq_ok_iff`), and `Raw.value` is what it says. What
is written is such a section as long as its length fits twelve bits
(`isSound_raw`), and it says what was written as far as that fits its fields
(`value_raw`).
-/

namespace ProgramStream

open ProgramStream.Parser ProgramStream.Parser.State

namespace Section

variable {s s' : Parser.State}

namespace ProgramPid

/-- A program as it stands in a section, reserved bits in its pid. -/
def bytes (p : ProgramPid) : List UInt8 :=
  ByteOrder.big.bytes 2 p.programNumber.toNat ++ ByteOrder.big.bytes 2 p.pid.toNat

/-- A program without reserved bits. -/
def narrowed (p : ProgramPid) : ProgramPid := { p with pid := p.pid % 8192 }

theorem length_flatMap_bytes (ps : List ProgramPid) :
    (ps.flatMap bytes).length = ps.length * Association.programLength := by
  induction ps with
  | nil => rfl
  | cons p ps ih =>
    simp only [List.flatMap_cons, List.length_append, ih, bytes, ByteOrder.length_bytes,
      List.length_cons, Association.programLength]
    omega

end ProgramPid

namespace Association

/-- **Programs are read off their words.** -/
theorem parsePrograms_eq_ok_iff {n : Nat} {ps : List ProgramPid} :
    parsePrograms n s = .ok ps s' ↔
      ∃ raws : List ProgramPid, raws.length = n ∧ raws.map ProgramPid.narrowed = ps ∧
        s.Takes (Bits.ofBytes (raws.flatMap ProgramPid.bytes)) [] s' := by
  induction n generalizing s s' ps with
  | zero =>
    rw [parsePrograms, pure_eq_ok_iff]
    constructor
    · rintro ⟨rfl, rfl⟩
      exact ⟨[], rfl, rfl, .refl _⟩
    · rintro ⟨raws, hlen, rfl, htakes⟩
      obtain rfl := List.length_eq_zero_iff.1 hlen
      exact ⟨rfl, (takes_nil_iff.1 htakes).symm⟩
  | succ n ih =>
    simp only [parsePrograms, bind_eq_ok_iff, field16_eq_ok_iff, parsePid_eq_ok_iff, ih,
      pure_eq_ok_iff]
    constructor
    · rintro ⟨number, _, h₁, _, _, ⟨pid, rfl, h₂⟩, _, _, ⟨raws, rfl, rfl, h₃⟩, rfl, rfl⟩
      refine ⟨⟨number, pid⟩ :: raws, rfl, rfl, ?_⟩
      rw [List.flatMap_cons, Bits.ofBytes_append, ProgramPid.bytes, Bits.ofBytes_append,
        ← Bits.ofField_word, ← Bits.ofField_word]
      exact (h₁.trans h₂).trans h₃
    · rintro ⟨raws, hlen, rfl, htakes⟩
      match raws, hlen with
      | p :: raws, hlen =>
        rw [List.flatMap_cons, Bits.ofBytes_append, ProgramPid.bytes, Bits.ofBytes_append,
          ← Bits.ofField_word, ← Bits.ofField_word, List.append_assoc] at htakes
        obtain ⟨_, h₁, htakes⟩ := takes_append_last_iff.1 htakes
        obtain ⟨_, h₂, h₃⟩ := takes_append_last_iff.1 htakes
        exact ⟨p.programNumber, _, h₁, _, _, ⟨p.pid, rfl, h₂⟩, _, _,
          ⟨raws, Nat.succ.inj hlen, rfl, h₃⟩, rfl, rfl⟩

/-! ## The grammar -/

/-- An association section as it stands in a buffer, cut into words. -/
structure Raw where
  /-- flags, and the section length -/
  length : UInt16
  transportStreamId : UInt16
  /-- reserved bits, the version, and a flag -/
  version : UInt8
  sectionNumbers : UInt16
  programs : List ProgramPid
  checksum : UInt32
  deriving DecidableEq, Repr

namespace Raw

/-- The bytes between the length and the checksum. -/
def body (r : Raw) : List UInt8 :=
  ByteOrder.big.bytes 2 r.transportStreamId.toNat ++ ([r.version] ++
    (ByteOrder.big.bytes 2 r.sectionNumbers.toNat ++ r.programs.flatMap ProgramPid.bytes))

/-- The section, its programs not looked into. -/
def envelope (r : Raw) : Envelope := ⟨tableId, r.length, r.body, r.checksum⟩

/-- **The grammar of association sections**: the length is that of the
programs, and the checksum that of the bytes before it. -/
structure IsSound (r : Raw) : Prop where
  length : r.length.toNat % 4096 =
    fixedLength + r.programs.length * programLength + checksumLength
  checksum : Crc.compute r.envelope.content = r.checksum

/-- What a section says. -/
def value (r : Raw) : Association :=
  { transportStreamId := r.transportStreamId
    version := r.version / 2 % 32
    programs := r.programs.map ProgramPid.narrowed
    checksum := r.checksum }

theorem length_body (r : Raw) :
    r.body.length = fixedLength + r.programs.length * programLength := by
  simp only [body, List.length_append, ByteOrder.length_bytes, List.length_cons, List.length_nil,
    ProgramPid.length_flatMap_bytes, fixedLength]
  omega

theorem isSound_iff {r : Raw} : r.IsSound ↔ r.envelope.IsSound := by
  constructor
  · rintro ⟨hlength, hchecksum⟩
    rw [← r.length_body] at hlength
    exact ⟨hlength, hchecksum⟩
  · rintro ⟨hlength, hchecksum⟩
    refine ⟨?_, hchecksum⟩
    rw [← r.length_body]
    exact hlength

/-- A section is laid out word by word. -/
theorem ofBytes_envelope (r : Raw) :
    Bits.ofBytes r.envelope.bytes =
      Bits.ofByte tableId ++ (Bits.ofField r.length.toBitVec ++
        (Bits.ofField r.transportStreamId.toBitVec ++ (Bits.ofByte r.version ++
        (Bits.ofField r.sectionNumbers.toBitVec ++
        (Bits.ofBytes (r.programs.flatMap ProgramPid.bytes) ++
        Bits.ofField r.checksum.toBitVec))))) := by
  simp only [Envelope.ofBytes_bytes, envelope, body, Bits.ofBytes_append, Bits.ofBytes_cons,
    Bits.ofBytes_nil, Bits.ofField_word, List.append_nil, List.append_assoc]

end Raw

/-- **A section is read if and only if it is a sound one**, and it is read as
what it says. -/
theorem parse_eq_ok_iff {t : Association} :
    parse s = .ok t s' ↔
      s.IsAligned ∧ ∃ r : Raw, r.IsSound ∧ r.value = t ∧
        s.Takes (Bits.ofBytes r.envelope.bytes) [] s' := by
  simp (disch := decide) only [parse, bind_eq_ok_iff, byte_eq_ok_iff, reserved16_eq_ok_iff,
    reserved32_eq_ok_iff, field16_eq_ok_iff, parseVersion_eq_ok_iff, parsePrograms_eq_ok_iff,
    ite_eq_ok_iff, throw_eq_ok_iff, false_and, exists_false, and_false, false_or, pure_eq_ok_iff]
  constructor
  · rintro ⟨⟨length, checksum⟩, _, hcheck, id, _, ⟨hs, h₁⟩, hid, _, _, ⟨word, h₂⟩, hlen, number,
      _, h₃, _, _, ⟨version, rfl, h₄⟩, _, _, ⟨numbers, h₅⟩, _, _, ⟨raws, hraws, rfl, h₆⟩, _, _,
      ⟨trailer, h₇⟩, rfl, rfl⟩
    obtain ⟨rfl, -⟩ := check_eq_ok_iff.1 hcheck
    obtain rfl := Decidable.not_not.1 hid
    let r : Raw := ⟨word, number, version, numbers, raws, trailer⟩
    have htakes := h₁.trans <| h₂.trans <| h₃.trans <| h₄.trans <| h₅.trans <| h₆.trans h₇
    rw [← r.ofBytes_envelope] at htakes
    have hlength : length = r.envelope.body.length + checksumLength := by
      rw [Raw.envelope, r.length_body]
      simp only [r, hraws, fixedLength, programLength, checksumLength] at hlen ⊢
      omega
    rw [hlength] at hcheck
    obtain ⟨hsound, htrailer⟩ := (Envelope.check_eq_ok_iff hs htakes).1 hcheck
    refine ⟨hs, r, Raw.isSound_iff.2 hsound, ?_, htakes⟩
    rw [← htrailer]
    rfl
  · rintro ⟨hs, r, hsound, rfl, htakes⟩
    have hcheck := (Envelope.check_eq_ok_iff hs htakes).2 ⟨Raw.isSound_iff.1 hsound, rfl⟩
    have hlength : r.envelope.body.length = fixedLength + r.programs.length * programLength :=
      r.length_body
    rw [r.ofBytes_envelope] at htakes
    simp only [takes_append_last_iff] at htakes
    obtain ⟨_, h₁, _, h₂, _, h₃, _, h₄, _, h₅, _, h₆, h₇⟩ := htakes
    refine ⟨_, s, hcheck, tableId, _, ⟨hs, h₁⟩, not_not_intro rfl, (), _, ⟨r.length, h₂⟩, ?_,
      r.transportStreamId, _, h₃, _, _, ⟨r.version, rfl, h₄⟩, (), _, ⟨r.sectionNumbers, h₅⟩, _, _,
      ⟨r.programs, ?_, rfl, h₆⟩, (), _, ⟨r.checksum, h₇⟩, rfl, rfl⟩
    all_goals
      simp only [hlength, fixedLength, programLength, checksumLength]
      omega

/-! ## Writing -/

/-- The length of the section fits twelve bits. -/
def Fits (t : Association) : Prop :=
  fixedLength + t.programs.length * programLength + checksumLength ≤ 4095

instance (t : Association) : Decidable t.Fits := inferInstanceAs (Decidable (_ ≤ _))

/-- What a section carries of an association: as much of the version and the
pids as their fields are wide, and a checksum of its own. -/
def carried (t : Association) : Association :=
  { t with
    version := t.version % 32
    programs := t.programs.map ProgramPid.narrowed
    checksum := Crc.compute t.content }

/-- The section an association is written as. -/
def raw (t : Association) : Raw :=
  { length := 0xB000 ||| t.sectionLength
    transportStreamId := t.transportStreamId
    version := versionByte t.version
    sectionNumbers := 0
    programs := t.programs.map fun p => { p with pid := 0xE000 ||| (p.pid &&& 0x1FFF) }
    checksum := Crc.compute t.content }

theorem content_raw (t : Association) : t.raw.envelope.content = t.content := by
  simp only [Envelope.content, Raw.envelope, Raw.body, raw, content, ProgramPid.bytes, lengthWord,
    pidWord, List.flatMap_map, List.append_assoc, List.cons_append, List.nil_append,
    UInt16.toNat_zero]

/-- **What is written is laid out as a section.** -/
theorem write_empty (t : Association) : write {} t = (t.raw.envelope.bytes, {}) := by
  rw [← Envelope.put_content (e := t.raw.envelope), content_raw]
  · rfl
  · rw [content_raw]
    simp only [Raw.envelope, raw]

theorem toNat_sectionLength {t : Association} (h : t.Fits) :
    t.sectionLength.toNat = fixedLength + t.programs.length * programLength + checksumLength := by
  unfold Fits at h
  exact UInt16.toNat_ofNat_of_lt' (Nat.lt_of_le_of_lt h (by decide))

/-- **The section is sound** if its length fits. -/
theorem isSound_raw {t : Association} (h : t.Fits) : t.raw.IsSound where
  length := by
    have hlength := toNat_sectionLength h
    unfold Fits at h
    rw [raw, lengthWord_mod, hlength, List.length_map]
    omega
  checksum := by rw [content_raw, raw]

/-- **The section says what was written**, as far as it fits. -/
theorem value_raw (t : Association) : t.raw.value = t.carried := by
  simp only [Raw.value, raw, carried, versionByte_div, List.map_map]
  congr 1
  refine List.map_congr_left fun p _ => ?_
  simp only [Function.comp_apply, ProgramPid.narrowed, pidWord_mod]

end Association

end Section

end ProgramStream
