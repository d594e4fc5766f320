import Mathlib.Algebra.Order.BigOperators.Group.List
import Mathlib.Data.List.Basic
import ProgramStream.Proofs.Section.Basic
import ProgramStream.Section.ProgramMap
/-!
# Program map sections — their grammar, and what is written in it

A section is some bytes cut into words and byte strings (`ProgramMap.Raw`).
The streams in it follow each other without a count, each with a length of
its own, so they are streams only if their lengths add up to what the section
has left for them (`parseStreams_eq_ok_iff`). The rest is as for association
sections: a section is read exactly if it is sound (`parse_eq_ok_iff`), what
is written is sound as long as its length fits twelve bits (`isSound_raw`),
and says what was written as far as that fits its fields (`value_raw`).
-/

namespace ProgramStream

open ProgramStream.Parser ProgramStream.Parser.State

namespace Section

variable {s s' : Parser.State}

/-! ## Streams -/

/-- A stream as it stands in a section, reserved bits in its pid and its
length. -/
structure StreamPid.Raw where
  streamType : UInt8
  pid : UInt16
  infoLength : UInt16
  info : List UInt8
  deriving DecidableEq, Repr

namespace StreamPid.Raw

/-- The bytes of a stream. -/
def bytes (r : Raw) : List UInt8 :=
  r.streamType :: (ByteOrder.big.bytes 2 r.pid.toNat ++
    (ByteOrder.big.bytes 2 r.infoLength.toNat ++ r.info))

/-- The length of a stream. -/
def size (r : Raw) : Nat := fixedLength + r.info.length

/-- The info is as long as the stream says. -/
def IsSound (r : Raw) : Prop := r.infoLength.toNat % 4096 = r.info.length

instance (r : Raw) : Decidable r.IsSound := inferInstanceAs (Decidable (_ = _))

/-- What a stream says. -/
def value (r : Raw) : StreamPid := ⟨r.streamType, r.pid % 8192, r.info⟩

theorem ofBytes_bytes (r : Raw) :
    Bits.ofBytes r.bytes =
      Bits.ofByte r.streamType ++ (Bits.ofField r.pid.toBitVec ++
        (Bits.ofField r.infoLength.toBitVec ++ Bits.ofBytes r.info)) := by
  simp only [bytes, Bits.ofBytes_cons, Bits.ofBytes_append, Bits.ofField_word]

@[simp] theorem length_bytes (r : Raw) : r.bytes.length = r.size := by
  simp [bytes, size, fixedLength]
  omega

theorem length_flatMap_bytes (rs : List Raw) : (rs.flatMap bytes).length = (rs.map size).sum := by
  simp [List.length_flatMap]

end StreamPid.Raw

namespace ProgramMap

/-- **Streams are read off their words**, and they fill their section. -/
theorem parseStreams_eq_ok_iff {remaining : Nat} {ss : List StreamPid} (hs : s.IsAligned) :
    parseStreams remaining s = .ok ss s' ↔
      ∃ raws : List StreamPid.Raw, (raws.map StreamPid.Raw.size).sum = remaining ∧
        (∀ r ∈ raws, r.IsSound) ∧ raws.map StreamPid.Raw.value = ss ∧
        s.Takes (Bits.ofBytes (raws.flatMap StreamPid.Raw.bytes)) [] s' := by
  -- a stream takes some of the bytes that remain, and never a known number of them
  induction remaining using Nat.strongRecOn generalizing s s' ss with
  | ind remaining ih =>
  unfold parseStreams
  by_cases hzero : remaining = 0
  · subst hzero
    rw [if_pos rfl, pure_eq_ok_iff]
    constructor
    · rintro ⟨rfl, rfl⟩
      exact ⟨[], rfl, by simp, rfl, .refl _⟩
    · rintro ⟨raws, hsum, -, rfl, htakes⟩
      cases raws with
      | nil => exact ⟨rfl, (takes_nil_iff.1 htakes).symm⟩
      | cons r raws =>
        simp only [List.map_cons, List.sum_cons, StreamPid.Raw.size, StreamPid.fixedLength] at hsum
        omega
  · rw [if_neg hzero]
    simp only [bind_eq_ok_iff, byte_eq_ok_iff, parsePid_eq_ok_iff, parseLength_eq_ok_iff,
      bytes_eq_ok_iff, ite_eq_ok_iff, throw_eq_ok_iff, false_and, exists_false, and_false,
      false_or, pure_eq_ok_iff]
    constructor
    · rintro ⟨-, type, _, ⟨-, h₁⟩, _, _, ⟨pid, rfl, h₂⟩, _, _, ⟨word, rfl, h₃⟩, hfits, info, t,
        ⟨-, hinfo, h₄⟩, _, _, hrest, rfl, rfl⟩
      let r : StreamPid.Raw := ⟨type, pid, word, info⟩
      have htakes := h₁.trans <| h₂.trans <| h₃.trans h₄
      rw [← r.ofBytes_bytes] at htakes
      have ht : t.IsAligned := (htakes.isAligned_iff (by simp)).2 hs
      obtain ⟨raws, hsum, hsound, rfl, htakes'⟩ :=
        (ih _ (by simp only [StreamPid.fixedLength]; omega) ht).1 hrest
      refine ⟨r :: raws, ?_, List.forall_mem_cons.2 ⟨hinfo.symm, hsound⟩, rfl, ?_⟩
      · rw [List.map_cons, List.sum_cons, hsum, StreamPid.Raw.size]
        simp only [r, hinfo]
        omega
      · rw [List.flatMap_cons, Bits.ofBytes_append]
        exact htakes.trans htakes'
    · rintro ⟨raws, hsum, hsound, rfl, htakes⟩
      cases raws with
      | nil => exact absurd hsum.symm hzero
      | cons r raws =>
        obtain ⟨hr, hraws⟩ := List.forall_mem_cons.1 hsound
        rw [List.map_cons, List.sum_cons, StreamPid.Raw.size] at hsum
        rw [List.flatMap_cons, Bits.ofBytes_append] at htakes
        obtain ⟨t, hfirst, hrest⟩ := takes_append_last_iff.1 htakes
        have ht : t.IsAligned := (hfirst.isAligned_iff (by simp)).2 hs
        rw [r.ofBytes_bytes] at hfirst
        simp only [takes_append_last_iff] at hfirst
        obtain ⟨_, h₁, _, h₂, _, h₃, h₄⟩ := hfirst
        have hinfo := ((h₁.trans <| h₂.trans h₃).isAligned_iff (by simp)).2 hs
        refine ⟨by omega, r.streamType, _, ⟨hs, h₁⟩, _, _, ⟨r.pid, rfl, h₂⟩, _, _,
          ⟨r.infoLength, hr, h₃⟩, by omega, r.info, t, ⟨hinfo, rfl, h₄⟩, _, _,
          (ih _ (by simp only [StreamPid.fixedLength]; omega) ht).2
            ⟨raws, by omega, hraws, rfl, hrest⟩, rfl, rfl⟩

/-! ## The grammar -/

/-- A program map section as it stands in a buffer, cut into words and byte
strings. -/
structure Raw where
  /-- flags, and the section length -/
  length : UInt16
  programNumber : UInt16
  /-- reserved bits, the version, and a flag -/
  version : UInt8
  sectionNumbers : UInt16
  /-- reserved bits, and the pid of the clock -/
  clockPid : UInt16
  /-- reserved bits, and the length of the program descriptors -/
  infoLength : UInt16
  programInfo : List UInt8
  streams : List StreamPid.Raw
  checksum : UInt32
  deriving DecidableEq, Repr

namespace Raw

/-- The bytes between the length and the checksum. -/
def body (r : Raw) : List UInt8 :=
  ByteOrder.big.bytes 2 r.programNumber.toNat ++ ([r.version] ++
    (ByteOrder.big.bytes 2 r.sectionNumbers.toNat ++ (ByteOrder.big.bytes 2 r.clockPid.toNat ++
    (ByteOrder.big.bytes 2 r.infoLength.toNat ++ (r.programInfo ++
    r.streams.flatMap StreamPid.Raw.bytes)))))

/-- The section, its descriptors and streams not looked into. -/
def envelope (r : Raw) : Envelope := ⟨tableId, r.length, r.body, r.checksum⟩

/-- The number of bytes that the section length counts. -/
def size (r : Raw) : Nat :=
  fixedLength + r.programInfo.length + (r.streams.map StreamPid.Raw.size).sum + checksumLength

/-- **The grammar of program map sections**: the lengths are those of what
they stand before, and the checksum that of the bytes before it. -/
structure IsSound (r : Raw) : Prop where
  length : r.length.toNat % 4096 = r.size
  programInfo : r.infoLength.toNat % 4096 = r.programInfo.length
  streams : ∀ stream ∈ r.streams, stream.IsSound
  checksum : Crc.compute r.envelope.content = r.checksum

/-- What a section says. -/
def value (r : Raw) : ProgramMap :=
  { programNumber := r.programNumber
    version := r.version / 2 % 32
    clockPid := r.clockPid % 8192
    programInfo := r.programInfo
    streams := r.streams.map StreamPid.Raw.value
    checksum := r.checksum }

theorem length_body (r : Raw) : r.body.length + checksumLength = r.size := by
  simp only [body, List.length_append, ByteOrder.length_bytes, List.length_cons, List.length_nil,
    StreamPid.Raw.length_flatMap_bytes, size, fixedLength]
  omega

theorem isSound_iff {r : Raw} :
    r.IsSound ↔ r.envelope.IsSound ∧ r.infoLength.toNat % 4096 = r.programInfo.length ∧
      ∀ stream ∈ r.streams, stream.IsSound := by
  constructor
  · rintro ⟨hlength, hinfo, hstreams, hchecksum⟩
    rw [← r.length_body] at hlength
    exact ⟨⟨hlength, hchecksum⟩, hinfo, hstreams⟩
  · rintro ⟨⟨hlength, hchecksum⟩, hinfo, hstreams⟩
    refine ⟨?_, hinfo, hstreams, hchecksum⟩
    rw [← r.length_body]
    exact hlength

/-- A section is laid out word by word. -/
theorem ofBytes_envelope (r : Raw) :
    Bits.ofBytes r.envelope.bytes =
      Bits.ofByte tableId ++ (Bits.ofField r.length.toBitVec ++
        (Bits.ofField r.programNumber.toBitVec ++ (Bits.ofByte r.version ++
        (Bits.ofField r.sectionNumbers.toBitVec ++ (Bits.ofField r.clockPid.toBitVec ++
        (Bits.ofField r.infoLength.toBitVec ++ (Bits.ofBytes r.programInfo ++
        (Bits.ofBytes (r.streams.flatMap StreamPid.Raw.bytes) ++
        Bits.ofField r.checksum.toBitVec)))))))) := by
  simp only [Envelope.ofBytes_bytes, envelope, body, Bits.ofBytes_append, Bits.ofBytes_cons,
    Bits.ofBytes_nil, Bits.ofField_word, List.append_nil, List.append_assoc]

end Raw

/-- **A section is read if and only if it is a sound one**, and it is read as
what it says. -/
theorem parse_eq_ok_iff {t : ProgramMap} :
    parse s = .ok t s' ↔
      s.IsAligned ∧ ∃ r : Raw, r.IsSound ∧ r.value = t ∧
        s.Takes (Bits.ofBytes r.envelope.bytes) [] s' := by
  simp (disch := decide) only [parse, bind_eq_ok_iff, byte_eq_ok_iff, reserved16_eq_ok_iff,
    reserved32_eq_ok_iff, field16_eq_ok_iff, parseVersion_eq_ok_iff, parsePid_eq_ok_iff,
    parseLength_eq_ok_iff, bytes_eq_ok_iff, ite_eq_ok_iff, throw_eq_ok_iff, false_and,
    exists_false, and_false, false_or, pure_eq_ok_iff]
  constructor
  · rintro ⟨⟨length, checksum⟩, _, hcheck, id, _, ⟨hs, h₁⟩, hid, _, _, ⟨word, h₂⟩, hlen, number,
      _, h₃, _, _, ⟨version, rfl, h₄⟩, _, _, ⟨numbers, h₅⟩, _, _, ⟨clockPid, rfl, h₆⟩, _, _,
      ⟨infoWord, rfl, h₇⟩, hfits, info, _, ⟨-, hinfo, h₈⟩, _, _, hstreams, _, _, ⟨trailer, h₁₀⟩,
      rfl, rfl⟩
    obtain ⟨rfl, -⟩ := check_eq_ok_iff.1 hcheck
    obtain rfl := Decidable.not_not.1 hid
    have hhead := h₁.trans <| h₂.trans <| h₃.trans <| h₄.trans <| h₅.trans <| h₆.trans h₇
    have haligned := (hhead.isAligned_iff (by simp)).2 hs
    have haligned' := (h₈.isAligned_iff (by simp)).2 haligned
    obtain ⟨raws, hsum, hsound, rfl, h₉⟩ := (parseStreams_eq_ok_iff haligned').1 hstreams
    let r : Raw := ⟨word, number, version, numbers, clockPid, infoWord, info, raws, trailer⟩
    have htakes := hhead.trans <| h₈.trans <| h₉.trans h₁₀
    simp only [List.append_assoc, List.nil_append] at htakes
    rw [← r.ofBytes_envelope] at htakes
    have hlength : length = r.envelope.body.length + checksumLength := by
      rw [Raw.envelope, r.length_body]
      simp only [r, Raw.size, hsum, hinfo, fixedLength, checksumLength] at hlen hfits ⊢
      omega
    rw [hlength] at hcheck
    obtain ⟨henvelope, htrailer⟩ := (Envelope.check_eq_ok_iff hs htakes).1 hcheck
    refine ⟨hs, r, Raw.isSound_iff.2 ⟨henvelope, hinfo.symm, hsound⟩, ?_, htakes⟩
    rw [← htrailer]
    rfl
  · rintro ⟨hs, r, hr, rfl, htakes⟩
    obtain ⟨henvelope, hinfo, hsound⟩ := Raw.isSound_iff.1 hr
    have hcheck := (Envelope.check_eq_ok_iff hs htakes).2 ⟨henvelope, rfl⟩
    have hlength : r.envelope.body.length + checksumLength = r.size := r.length_body
    rw [hlength] at hcheck
    rw [r.ofBytes_envelope] at htakes
    simp only [takes_append_last_iff] at htakes
    obtain ⟨_, h₁, _, h₂, _, h₃, _, h₄, _, h₅, _, h₆, _, h₇, _, h₈, _, h₉, h₁₀⟩ := htakes
    have hhead := h₁.trans <| h₂.trans <| h₃.trans <| h₄.trans <| h₅.trans <| h₆.trans h₇
    have haligned := (hhead.isAligned_iff (by simp)).2 hs
    have haligned' := (h₈.isAligned_iff (by simp)).2 haligned
    refine ⟨_, s, hcheck, tableId, _, ⟨hs, h₁⟩, not_not_intro rfl, (), _, ⟨r.length, h₂⟩, ?_,
      r.programNumber, _, h₃, _, _, ⟨r.version, rfl, h₄⟩, (), _, ⟨r.sectionNumbers, h₅⟩, _, _,
      ⟨r.clockPid, rfl, h₆⟩, _, _, ⟨r.infoLength, hinfo, h₇⟩, ?_, r.programInfo, _,
      ⟨haligned, rfl, h₈⟩, _, _,
      (parseStreams_eq_ok_iff haligned').2 ⟨r.streams, ?_, hsound, rfl, h₉⟩, (), _,
      ⟨r.checksum, h₁₀⟩, rfl, rfl⟩
    all_goals
      simp only [Raw.size, fixedLength, checksumLength]
      omega

/-! ## Writing -/

/-- The length of the section fits twelve bits. -/
def Fits (t : ProgramMap) : Prop :=
  fixedLength + t.programInfo.length +
    (t.streams.map fun s => StreamPid.fixedLength + s.info.length).sum + checksumLength ≤ 4095

instance (t : ProgramMap) : Decidable t.Fits := inferInstanceAs (Decidable (_ ≤ _))

/-- What a section carries of a program map: as much of the version and the
pids as their fields are wide, and a checksum of its own. -/
def carried (t : ProgramMap) : ProgramMap :=
  { t with
    version := t.version % 32
    clockPid := t.clockPid % 8192
    streams := t.streams.map fun s => { s with pid := s.pid % 8192 }
    checksum := Crc.compute t.content }

/-- The section a program map is written as. -/
def raw (t : ProgramMap) : Raw :=
  { length := 0xB000 ||| t.sectionLength
    programNumber := t.programNumber
    version := versionByte t.version
    sectionNumbers := 0
    clockPid := 0xE000 ||| (t.clockPid &&& 0x1FFF)
    infoLength := 0xF000 ||| (UInt16.ofNat t.programInfo.length &&& 0x0FFF)
    programInfo := t.programInfo
    streams := t.streams.map fun s =>
      { streamType := s.streamType
        pid := 0xE000 ||| (s.pid &&& 0x1FFF)
        infoLength := 0xF000 ||| (UInt16.ofNat s.info.length &&& 0x0FFF)
        info := s.info }
    checksum := Crc.compute t.content }

theorem content_raw (t : ProgramMap) : t.raw.envelope.content = t.content := by
  simp only [Envelope.content, Raw.envelope, Raw.body, raw, content, StreamPid.Raw.bytes,
    lengthWord, pidWord, infoWord, List.flatMap_map, List.append_assoc, List.cons_append,
    List.nil_append, UInt16.toNat_zero]

/-- **What is written is laid out as a section.** -/
theorem write_empty (t : ProgramMap) : write {} t = (t.raw.envelope.bytes, {}) := by
  rw [← Envelope.put_content (e := t.raw.envelope), content_raw]
  · rfl
  · rw [content_raw]
    simp only [Raw.envelope, raw]

theorem size_raw (t : ProgramMap) :
    t.raw.size = fixedLength + t.programInfo.length +
      (t.streams.map fun s => StreamPid.fixedLength + s.info.length).sum + checksumLength := by
  simp only [Raw.size, raw, List.map_map]
  rfl

theorem toNat_sectionLength {t : ProgramMap} (h : t.Fits) :
    t.sectionLength.toNat = t.raw.size := by
  rw [size_raw]
  unfold Fits at h
  have hfoldr : t.streams.foldr (fun s n => StreamPid.fixedLength + s.info.length + n) 0 =
      (t.streams.map fun s => StreamPid.fixedLength + s.info.length).sum := by
    rw [List.sum, List.foldr_map]
  rw [sectionLength, hfoldr]
  exact UInt16.toNat_ofNat_of_lt' (Nat.lt_of_le_of_lt h (by decide))

/-- **The section is sound** if its length fits. -/
theorem isSound_raw {t : ProgramMap} (h : t.Fits) : t.raw.IsSound where
  length := by
    have hsize := toNat_sectionLength h
    have hlt : t.raw.size < 4096 := by
      rw [size_raw]
      exact Nat.lt_succ_of_le h
    rw [show t.raw.length = 0xB000 ||| t.sectionLength from rfl, lengthWord_mod, hsize,
      Nat.mod_eq_of_lt hlt]
  programInfo := by
    unfold Fits at h
    rw [raw, infoWord_mod]
    exact Nat.mod_eq_of_lt (by omega)
  streams := by
    intro stream hstream
    obtain ⟨s, hs, rfl⟩ := List.mem_map.1 hstream
    -- no stream is longer than all of them together
    have hmem : StreamPid.fixedLength + s.info.length ∈
        t.streams.map fun s => StreamPid.fixedLength + s.info.length :=
      List.mem_map.2 ⟨s, hs, rfl⟩
    have hle := List.le_sum_of_mem hmem
    unfold Fits at h
    rw [StreamPid.Raw.IsSound, infoWord_mod]
    exact Nat.mod_eq_of_lt (by omega)
  checksum := by rw [content_raw, raw]

/-- **The section says what was written**, as far as it fits. -/
theorem value_raw (t : ProgramMap) : t.raw.value = t.carried := by
  simp only [Raw.value, raw, carried, versionByte_div, pidWord_mod, List.map_map]
  congr 1
  refine List.map_congr_left fun s _ => ?_
  simp only [Function.comp_apply, StreamPid.Raw.value, pidWord_mod]

end ProgramMap

end Section

end ProgramStream
