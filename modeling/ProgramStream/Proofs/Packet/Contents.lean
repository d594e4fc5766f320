import ProgramStream.Proofs.Packet
/-!
# Packets — from what they hold to how they are laid out, and back

`Packet.Contents` is what a packet holds, without the flags and the lengths
that only tell what is there. These follow from it: `Contents.packet` is the
packet, `Contents.bytes` its layout, with reserved bits and stuffing of any
kind. A layout is read as the packet it is of, and whatever is read as a
packet is a layout of it (`run_parse_bytes`).
-/

namespace ProgramStream

open ProgramStream.Parser ProgramStream.Parser.State

namespace Packet

/-! ## Times -/

/-- The times of a packet. -/
inductive Times where
  | absent
  /-- the flags ask for a decoding time alone, and there is none -/
  | forbidden
  | presentation (presentation : BitVec 33)
  | both (presentation decoding : BitVec 33)
  deriving DecidableEq, Repr

namespace Times

/-- The flags of the times. -/
def flags : Times → BitVec 2
  | .absent => 0b00
  | .forbidden => 0b01
  | .presentation _ => 0b10
  | .both .. => 0b11

/-- The presentation time under the code it has. -/
def presentation? : Times → Option Timestamp
  | .presentation t => some ⟨Timestamp.presentationAlone, t.toNat⟩
  | .both t _ => some ⟨Timestamp.presentation, t.toNat⟩
  | _ => none

/-- The decoding time under the code it has. -/
def decoding? : Times → Option Timestamp
  | .both _ t => some ⟨Timestamp.decoding, t.toNat⟩
  | _ => none

/-- A code of four bits and a count make a timestamp. -/
theorem isValid_timestamp {code : Nat} (h : code < 2 ^ 4) (t : BitVec 33) :
    Timestamp.IsValid ⟨code, t.toNat⟩ := ⟨h, t.isLt⟩

theorem hasCode_presentation? (t : Times) :
    HasCode (presentationCode? t.flags) t.presentation? := by
  cases t with
  | absent | forbidden => exact hasCode_none_iff.2 rfl
  | presentation p => exact hasCode_some_iff.2 ⟨_, rfl, rfl, isValid_timestamp (by decide) p⟩
  | both p d => exact hasCode_some_iff.2 ⟨_, rfl, rfl, isValid_timestamp (by decide) p⟩

theorem hasCode_decoding? (t : Times) : HasCode (decodingCode? t.flags) t.decoding? := by
  cases t with
  | absent | forbidden | presentation => exact hasCode_none_iff.2 rfl
  | both p d => exact hasCode_some_iff.2 ⟨_, rfl, rfl, isValid_timestamp (by decide) d⟩

/-- A timestamp is its code and 33 bits. -/
theorem exists_timestamp {code : Nat} {t? : Option Timestamp} (h : HasCode (some code) t?) :
    ∃ v : BitVec 33, t? = some ⟨code, v.toNat⟩ := by
  obtain ⟨⟨_, value⟩, rfl, rfl, hvalid⟩ := hasCode_some_iff.1 h
  exact ⟨BitVec.ofNat 33 value, by rw [Bits.toNat_ofNat_of_lt hvalid.2]⟩

/-- **Timestamps with the codes the flags ask for are times.** -/
theorem exists_times {times : BitVec 2} {presentation decoding : Option Timestamp}
    (hpresentation : HasCode (presentationCode? times) presentation)
    (hdecoding : HasCode (decodingCode? times) decoding) :
    ∃ t : Times, t.flags = times ∧ t.presentation? = presentation ∧ t.decoding? = decoding := by
  rcases times_cases times with rfl | rfl | rfl | rfl
  · rw [hasCode_none_iff.1 hpresentation, hasCode_none_iff.1 hdecoding]
    exact ⟨.absent, rfl, rfl, rfl⟩
  · rw [hasCode_none_iff.1 hpresentation, hasCode_none_iff.1 hdecoding]
    exact ⟨.forbidden, rfl, rfl, rfl⟩
  · obtain ⟨p, rfl⟩ := exists_timestamp hpresentation
    rw [hasCode_none_iff.1 hdecoding]
    exact ⟨.presentation p, rfl, rfl, rfl⟩
  · obtain ⟨p, rfl⟩ := exists_timestamp hpresentation
    obtain ⟨d, rfl⟩ := exists_timestamp hdecoding
    exact ⟨.both p d, rfl, rfl, rfl⟩

end Times

/-! ## Contents -/

/-- What a packet holds. -/
structure Contents where
  streamId : UInt8
  scrambling : BitVec 2
  priority : Bool
  alignment : Bool
  protectedContent : Bool
  notCopied : Bool
  times : Times
  clock : Option ClockReference
  rate : Option (BitVec 22)
  trickMode : Option TrickMode
  copyInfo : Option (BitVec 7)
  previousChecksum : Option UInt16
  extension : Option Extension
  payload : List UInt8
  deriving DecidableEq, Repr

namespace Contents

/-- The optional fields. -/
def fields (c : Contents) : Fields :=
  { presentation := c.times.presentation?
    decoding := c.times.decoding?
    clock := c.clock
    rate := c.rate
    trickMode := c.trickMode
    copyInfo := c.copyInfo
    previousChecksum := c.previousChecksum
    extension := c.extension }

/-- The flags, one set for each field that is there. -/
def flags (c : Contents) : Flags :=
  { times := c.times.flags
    clock := c.clock.isSome
    rate := c.rate.isSome
    trickMode := c.trickMode.isSome
    copyInfo := c.copyInfo.isSome
    previousChecksum := c.previousChecksum.isSome
    extension := c.extension.isSome }

/-- The length of the optional fields and the stuffing. -/
def dataLength (c : Contents) (fill : Filling) : Nat := c.fields.size + fill.stuffing.length

/-- The length of what follows the packet length. -/
def packetLength (c : Contents) (fill : Filling) : Nat :=
  headerLength + c.dataLength fill + c.payload.length

/-- The packet. -/
def packet (c : Contents) (fill : Filling) : Packet :=
  { streamId := c.streamId
    packetLength := UInt16.ofNat (c.packetLength fill)
    header :=
      { scrambling := c.scrambling
        priority := c.priority
        alignment := c.alignment
        protectedContent := c.protectedContent
        notCopied := c.notCopied
        flags := c.flags
        dataLength := UInt8.ofNat (c.dataLength fill) }
    fields := c.fields
    payload := c.payload }

/-- The layout of the packet. -/
def bytes (c : Contents) (fill : Filling) : List UInt8 := Bits.pack ((c.packet fill).bits fill)

/-- The parts of a packet fit their fields, and so do its lengths. -/
structure Fits (c : Contents) (fill : Filling) : Prop where
  clock : ∀ clock ∈ c.clock, clock.IsValid
  extension : ∀ extension ∈ c.extension, extension.IsValid
  dataLength : c.dataLength fill ≤ 255
  packetLength : c.packetLength fill ≤ 65535

instance (c : Contents) (fill : Filling) : Decidable (c.Fits fill) :=
  decidable_of_iff
    ((∀ clock ∈ c.clock, clock.IsValid) ∧ (∀ extension ∈ c.extension, extension.IsValid) ∧
      c.dataLength fill ≤ 255 ∧ c.packetLength fill ≤ 65535)
    ⟨fun ⟨h₁, h₂, h₃, h₄⟩ => ⟨h₁, h₂, h₃, h₄⟩, fun h => ⟨h.1, h.2, h.3, h.4⟩⟩

variable {c : Contents} {fill : Filling}

theorem toNat_dataLength (h : c.Fits fill) :
    (c.packet fill).header.dataLength.toNat = c.dataLength fill :=
  UInt8.toNat_ofNat_of_lt' (Nat.lt_succ_of_le h.dataLength)

theorem toNat_packetLength (h : c.Fits fill) :
    (c.packet fill).packetLength.toNat = c.packetLength fill :=
  UInt16.toNat_ofNat_of_lt' (Nat.lt_succ_of_le h.packetLength)

/-- **The packet is valid**, flags and lengths included. -/
theorem isValid_packet (h : c.Fits fill) : (c.packet fill).IsValid fill where
  fields :=
    { presentation := c.times.hasCode_presentation?
      decoding := c.times.hasCode_decoding?
      clock := rfl
      rate := rfl
      trickMode := rfl
      copyInfo := rfl
      previousChecksum := rfl
      extension := rfl
      clock_isValid := h.clock
      extension_isValid := h.extension }
  dataLength := by
    rw [toNat_dataLength h, Fields.length_bits, dataLength]
    exact (Nat.mul_add 8 _ _).symm
  packetLength := by
    rw [toNat_packetLength h, toNat_dataLength h]
    rfl

/-- **Every valid packet is one of some contents.** -/
theorem exists_packet_eq {p : Packet} (h : p.IsValid fill) :
    ∃ c : Contents, c.Fits fill ∧ c.packet fill = p := by
  obtain ⟨hfields, hdata, hpacket⟩ := h
  obtain ⟨t, htimes, hpresentation, hdecoding⟩ :=
    Times.exists_times hfields.presentation hfields.decoding
  let c : Contents :=
    { streamId := p.streamId
      scrambling := p.header.scrambling
      priority := p.header.priority
      alignment := p.header.alignment
      protectedContent := p.header.protectedContent
      notCopied := p.header.notCopied
      times := t
      clock := p.fields.clock
      rate := p.fields.rate
      trickMode := p.fields.trickMode
      copyInfo := p.fields.copyInfo
      previousChecksum := p.fields.previousChecksum
      extension := p.fields.extension
      payload := p.payload }
  have hc : c.fields = p.fields := by
    simp only [c, fields, hpresentation, hdecoding]
  have hflags : c.flags = p.header.flags := by
    simp only [c, flags, htimes, hfields.clock, hfields.rate, hfields.trickMode, hfields.copyInfo,
      hfields.previousChecksum, hfields.extension]
  have hdataLength : c.dataLength fill = p.header.dataLength.toNat := by
    rw [Fields.length_bits] at hdata
    rw [dataLength, hc]
    omega
  have hpacketLength : c.packetLength fill = p.packetLength.toNat := by
    rw [packetLength, hdataLength, hpacket]
  refine ⟨c, ⟨hfields.clock_isValid, hfields.extension_isValid, ?_, ?_⟩, ?_⟩
  · rw [hdataLength]
    exact Nat.le_of_lt_succ p.header.dataLength.toNat_lt
  · rw [hpacketLength]
    exact Nat.le_of_lt_succ p.packetLength.toNat_lt
  · rw [packet, hdataLength, hpacketLength, hflags, hc, UInt8.ofNat_toNat, UInt16.ofNat_toNat]

theorem ofBytes_bytes (h : c.Fits fill) :
    Bits.ofBytes (c.bytes fill) = (c.packet fill).bits fill :=
  Bits.ofBytes_pack ⟨_, length_bits (isValid_packet h)⟩

theorem length_bytes (h : c.Fits fill) : (c.bytes fill).length = (c.packet fill).size := by
  have hlength := congrArg List.length (ofBytes_bytes h)
  rw [Bits.length_ofBytes, length_bits (isValid_packet h)] at hlength
  omega

/-- The payload stands at the end. -/
theorem payload_suffix_bytes (h : c.Fits fill) : c.payload <:+ c.bytes fill := by
  obtain ⟨front, hfront⟩ : Bits.ofBytes c.payload <:+ (c.packet fill).bits fill := by
    iterate 4 refine List.suffix_append_of_suffix ?_
    exact List.suffix_append _ _
  -- all of the layout is whole bytes, and so is the payload
  have hdvd : 8 ∣ front.length := by
    have hlength := congrArg List.length hfront
    rw [List.length_append, Bits.length_ofBytes, length_bits (isValid_packet h)] at hlength
    omega
  exact ⟨Bits.pack front, by rw [bytes, ← hfront, Bits.pack_append hdvd, Bits.pack_ofBytes]⟩

end Contents

/-! ## Reading -/

/-- **A packet is read exactly off its layouts.** Wherever a layout of some
contents stands at a byte boundary, whatever follows it, the packet of these
contents is read: with the values that are there and none of those that are
not, and with a payload that is all of the layout that its two lengths leave.
As many bytes are taken as the packet length says. The other way round,
whatever is read as a packet was a layout of it, at a byte boundary. -/
theorem run_parse_bytes :
    (∀ (c : Contents) (fill : Filling) (rest : List UInt8) (start : BitCursor),
      c.Fits fill → start.pending = [] → start.bytes = c.bytes fill ++ rest →
      let p := c.packet fill
      let outcome := Packet.parse.run start
      outcome.result = .ok p ∧
        p.payload <:+ c.bytes fill ∧
        p.payload.length = p.packetLength.toNat - headerLength - p.header.dataLength.toNat ∧
        outcome.cursor.pending = [] ∧ outcome.cursor.bytes = rest ∧
        outcome.cursor.taken = start.taken + (prologueLength + p.packetLength.toNat) ∧
        outcome.warnings.toList = timeWarnings p.streamId p.header.flags.times) ∧
    ∀ (start : BitCursor) (p : Packet), (Packet.parse.run start).result = .ok p →
      start.pending = [] ∧ ∃ (c : Contents) (fill : Filling), c.Fits fill ∧ c.packet fill = p ∧
        start.bytes = c.bytes fill ++ (Packet.parse.run start).cursor.bytes := by
  constructor
  · intro c fill rest start hfits hpending hbytes p outcome
    have hvalid : p.IsValid fill := Contents.isValid_packet hfits
    let ws := timeWarnings p.streamId p.header.flags.times
    let stop : Parser.State :=
      ⟨⟨[], rest, start.taken + (c.bytes fill).length, by decide⟩, ws.toArray⟩
    have hcursor : start.Takes (p.bits fill) stop.cursor := by
      rw [← Contents.ofBytes_bytes hfits]
      exact BitCursor.takes_bytes hpending hbytes
    have htakes : State.Takes ⟨start, #[]⟩ (p.bits fill) ws stop := ⟨hcursor, rfl⟩
    have hparse : Packet.parse ⟨start, #[]⟩ = .ok p stop :=
      parse_eq_ok_iff.2 ⟨hpending, fill, hvalid, htakes⟩
    have houtcome : outcome = ⟨.ok p, stop.cursor, stop.warnings⟩ := run_of_ok hparse
    rw [houtcome]
    refine ⟨rfl, Contents.payload_suffix_bytes hfits, ?_, rfl, rfl, ?_, rfl⟩
    · have hlength := hvalid.packetLength
      omega
    · rw [← size, ← Contents.length_bytes hfits]
  · intro start p hresult
    obtain ⟨s', hparse, hcursor⟩ := exists_of_result_run hresult
    obtain ⟨hpending, fill, hvalid, htakes⟩ := parse_eq_ok_iff.1 hparse
    obtain ⟨c, hfits, rfl⟩ := Contents.exists_packet_eq hvalid
    rw [← Contents.ofBytes_bytes hfits] at htakes
    rw [hcursor]
    exact ⟨hpending, c, fill, hfits, rfl, (BitCursor.eq_of_takes_bytes hpending htakes.cursor).1⟩

/-- Contents with all there may be in a packet. -/
def sampleContents : Contents :=
  { streamId := 0xE0
    scrambling := 0b01
    priority := true
    alignment := false
    protectedContent := true
    notCopied := false
    times := .both 0x123456789 0x012345678
    clock := some ⟨0x1FFFFFFFF, 299⟩
    rate := some 0x155555
    trickMode := some (.fast true 2 true 1)
    copyInfo := some 0x55
    previousChecksum := some 0xBEEF
    extension := some
      { privateData := some (List.replicate 16 0xA5)
        packHeader := some [1, 2, 3]
        sequenceCounter := some ⟨0x2A, true, 0x15⟩
        buffer := some ⟨true, 0x0123⟩
        field := some [9, 8] }
    payload := [0xDE, 0xAD, 0xBE] }

/-- They are read in the middle of other bytes. -/
theorem run_parse_sampleContents :
    let fill : Filling := ⟨0b10, 0, 0b101, [0xFF, 0x00]⟩
    let bytes : List UInt8 :=
      [0x00, 0x00, 0x01, 0xE0, 0x00, 0x3B, 0x9A, 0xFF, 0x35, 0x39, 0x8D, 0x15, 0xCF, 0x13, 0x11,
        0x48, 0xD1, 0xAC, 0xF1, 0xBF, 0xFF, 0xFF, 0xFF, 0xFE, 0x57, 0xAA, 0xAA, 0xAB, 0x75, 0xD5,
        0xBE, 0xEF, 0xFB] ++ List.replicate 16 0xA5 ++ [0x03, 0x01, 0x02, 0x03, 0xAA, 0xD5, 0x61,
        0x23, 0x82, 0x09, 0x08, 0xFF, 0x00, 0xDE, 0xAD, 0xBE]
    let start : BitCursor := ⟨[], bytes ++ [0x00, 0x00, 0x01], 7, by decide⟩
    let outcome := Packet.parse.run start
    sampleContents.Fits fill ∧ outcome.result = .ok (sampleContents.packet fill) ∧
      outcome.cursor.bytes = [0x00, 0x00, 0x01] ∧ outcome.cursor.taken = 7 + 65 := by
  intro fill bytes start outcome
  have hfits : sampleContents.Fits fill := by decide +kernel
  have hbytes : start.bytes = sampleContents.bytes fill ++ [0x00, 0x00, 0x01] := by decide +kernel
  obtain ⟨hresult, -, -, -, hrest, htaken, -⟩ :=
    run_parse_bytes.1 sampleContents fill [0x00, 0x00, 0x01] start hfits rfl hbytes
  exact ⟨hfits, hresult, hrest, htaken⟩

end Packet

end ProgramStream
