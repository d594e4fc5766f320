import ProgramStream.Packet
import ProgramStream.Proofs.Strict.Headers
/-!
# Strict packets — lengths behind their guards

A packet states two lengths, and what they leave for stuffing and payload are
differences. Each of them stands behind a guard: the packet length is no less
than what comes before the payload, and the header data length no less than
what its fields have used, which is counted on the cursor. Of the optional
fields each takes whole bytes, whatever its own flags select.
-/

namespace ProgramStream

open Parser.State Strict

namespace Packet

variable {k m : Nat}

/-! ## Trick modes -/

namespace TrickMode

/-- Reads the rest of a fast mode. -/
def parseFastStrict (backward : Bool) : Strict TrickMode := do
  let fieldId ← Strict.field 2 8
  let intraOnly ← flag
  let truncation ← Strict.field 2 8
  return .fast backward fieldId intraOnly truncation

/-- Reads the rest of a slow mode. -/
def parseSlowStrict (backward : Bool) : Strict TrickMode := do
  return .slow backward (← Strict.field 5 8)

/-- Reads the rest of a standing picture. -/
def parseFreezeStrict : Strict TrickMode := do
  let fieldId ← Strict.field 2 8
  reserved 3
  return .freeze fieldId

/-- There are three modes without a meaning, and not none. -/
theorem neZero_three : NeZero 3 := ⟨Nat.succ_ne_zero 2⟩

/-- Reads the rest of a mode without a meaning. -/
def parseUnassignedStrict (control : Nat) : Strict TrickMode := do
  reserved 5
  return .unassigned (@Fin.ofNat 3 neZero_three (control - 5))

/-- Reads a trick mode. -/
def parseStrict : Strict TrickMode := do
  let control ← Strict.field 3 8
  match control.toNat with
  | 0 => parseFastStrict false
  | 1 => parseSlowStrict false
  | 2 => parseFreezeStrict
  | 3 => parseFastStrict true
  | 4 => parseSlowStrict true
  | n => parseUnassignedStrict n

theorem implements_parseFast (backward : Bool) :
    Implements k (IsPast m) (IsPast (m + 5)) (parseFastStrict backward) (parseFast backward) := by
  refine (Implements.field (by decide) (by decide)).bind fun fieldId => ?_
  refine Implements.flag.bind fun intraOnly => ?_
  exact (Implements.field (by decide) (by decide)).bind fun truncation => .pure_past _ rfl

theorem implements_parseSlow (backward : Bool) :
    Implements k (IsPast m) (IsPast (m + 5)) (parseSlowStrict backward) (parseSlow backward) :=
  (Implements.field (by decide) (by decide)).bind fun repeats => .pure_past _ rfl

theorem implements_parseFreeze :
    Implements k (IsPast m) (IsPast (m + 5)) parseFreezeStrict parseFreeze := by
  refine (Implements.field (by decide) (by decide)).bind fun fieldId => ?_
  exact (Implements.reserved (by decide)).bind fun _ => .pure_past _ rfl

theorem implements_parseUnassigned (control : Nat) :
    Implements k (IsPast m) (IsPast (m + 5)) (parseUnassignedStrict control)
      (parseUnassigned control) :=
  (Implements.reserved (by decide)).bind fun _ => .pure_past _ rfl

/-- **Every mode takes one byte.** -/
theorem implements_parse : Implements k (IsPast m) (IsPast m) parseStrict parse := by
  unfold parseStrict parse
  refine .past ?_ (show (m + 3 + 5) % 8 = m % 8 by omega)
  refine (Implements.field (by decide) (by decide)).bind fun control => ?_
  match control.toNat with
  | 0 => exact implements_parseFast false
  | 1 => exact implements_parseSlow false
  | 2 => exact implements_parseFreeze
  | 3 => exact implements_parseFast true
  | 4 => exact implements_parseSlow true
  | n + 5 => exact implements_parseUnassigned (n + 5)

end TrickMode

/-! ## Extensions -/

/-- Reads a sequence counter. -/
def SequenceCounter.parseStrict : Strict SequenceCounter := do
  marker "program_packet_sequence_counter"
  let counter ← Strict.field 7 8
  marker "program_packet_sequence_counter"
  let firstVersion ← flag
  let stuffing ← Strict.field 6 8
  return { counter, firstVersion, stuffing }

/-- Reads the size of a decoder's buffer. -/
def DecoderBuffer.parseStrict : Strict DecoderBuffer := do
  let mark ← Strict.field 2 64
  if mark = 0b01 then
    let scale ← flag
    let bound ← Strict.field 13 16
    return { scale, bound }
  else fail (.malformed .bufferMark)

theorem SequenceCounter.implements_parse :
    Implements k (IsPast m) (IsPast m) parseStrict parse := by
  unfold parseStrict parse
  refine (Implements.marker _).bind fun _ => ?_
  refine (Implements.field (by decide) (by decide)).bind fun counter => ?_
  refine (Implements.marker _).bind fun _ => ?_
  refine Implements.flag.bind fun firstVersion => ?_
  exact (Implements.field (by decide) (by decide)).bind fun stuffing => .pure_past _ (by omega)

theorem DecoderBuffer.implements_parse :
    Implements k (IsPast m) (IsPast m) parseStrict parse := by
  unfold parseStrict parse
  refine (Implements.field (by decide) (by decide)).bind fun mark => ?_
  refine .ite (fun _ => ?_) fun _ => .fail (.malformed .bufferMark)
  refine Implements.flag.bind fun scale => ?_
  exact (Implements.field (by decide) (by decide)).bind fun bound => .pure_past _ (by omega)

namespace Extension

/-- Reads the bytes of a pack header after their length. -/
def parsePackHeaderStrict : Strict (List UInt8) := do
  let length ← byte
  Strict.bytes length.toNat

/-- Reads the bytes of an extension field after their length. -/
def parseFieldStrict : Strict (List UInt8) := do
  marker "PES_extension_field_length"
  let length ← Strict.field 7 64
  Strict.bytes length.toNat

/-- Reads an extension. -/
def parseStrict : Strict Extension := do
  let hasPrivateData ← flag
  let hasPackHeader ← flag
  let hasCounter ← flag
  let hasBuffer ← flag
  reserved 3
  let hasField ← flag
  let privateData ← given hasPrivateData (Strict.bytes privateLength)
  let packHeader ← given hasPackHeader parsePackHeaderStrict
  let sequenceCounter ← given hasCounter SequenceCounter.parseStrict
  let buffer ← given hasBuffer DecoderBuffer.parseStrict
  let field ← given hasField parseFieldStrict
  return { privateData, packHeader, sequenceCounter, buffer, field }

theorem implements_parsePackHeader (hm : m % 8 = 0) :
    Implements k (IsPast m) (IsPast m) parsePackHeaderStrict parsePackHeader :=
  (Implements.byte hm).bind fun _ => .bytes _ hm

theorem implements_parseField (hm : m % 8 = 0) :
    Implements k (IsPast m) (IsPast m) parseFieldStrict parseField := by
  refine (Implements.marker _).bind fun _ => ?_
  refine (Implements.field (by decide) (by decide)).bind fun length => ?_
  exact .past (Implements.bytes _ (by omega)) (by omega)

/-- **An extension takes whole bytes**, whatever it selects. -/
theorem implements_parse (hm : m % 8 = 0) :
    Implements k (IsPast m) (IsPast m) parseStrict parse := by
  unfold parseStrict parse
  refine Implements.flag.bind fun hasPrivateData => ?_
  refine Implements.flag.bind fun hasPackHeader => ?_
  refine Implements.flag.bind fun hasCounter => ?_
  refine Implements.flag.bind fun hasBuffer => ?_
  refine (Implements.reserved (by decide)).bind fun _ => ?_
  refine Implements.flag.bind fun hasField => ?_
  have hflags : (m + 1 + 1 + 1 + 1 + 3 + 1) % 8 = 0 := by omega
  refine ((Implements.bytes _ hflags).given _).bind fun privateData => ?_
  refine ((implements_parsePackHeader hflags).given _).bind fun packHeader => ?_
  refine (SequenceCounter.implements_parse.given _).bind fun sequenceCounter => ?_
  refine (DecoderBuffer.implements_parse.given _).bind fun buffer => ?_
  refine ((implements_parseField hflags).given _).bind fun field => ?_
  exact .pure_past _ (by omega)

end Extension

/-! ## Headers and fields -/

/-- Reads a start code and returns the stream id in it. The code is kept as a
whole; its last byte is the id. -/
def parseStartStrict : Strict UInt8 := do
  let found ← field32
  if found >>> 8 = 1 then return found.toUInt8
  else fail (.startCode found)

/-- Reads the flags. -/
def Flags.parseStrict : Strict Flags := do
  let times ← Strict.field 2 8
  let clock ← flag
  let rate ← flag
  let trickMode ← flag
  let copyInfo ← flag
  let previousChecksum ← flag
  let extension ← flag
  return { times, clock, rate, trickMode, copyInfo, previousChecksum, extension }

/-- Reads a header up to its optional fields. -/
def Header.parseStrict : Strict Header := do
  PackHeader.parseVersionStrict 0b10
  let scrambling ← Strict.field 2 8
  let priority ← flag
  let alignment ← flag
  let protectedContent ← flag
  let notCopied ← flag
  let flags ← Flags.parseStrict
  let dataLength ← byte
  return { scrambling, priority, alignment, protectedContent, notCopied, flags, dataLength }

/-- Reads the times the flags ask for. -/
def parseTimesStrict (streamId : UInt8) (times : BitVec 2) :
    Strict (Option Timestamp × Option Timestamp) := do
  if times = 0b10 then
    return (some (← Timestamp.parseCodeStrict Timestamp.presentationAlone), none)
  else if times = 0b11 then
    let presentation ← Timestamp.parseCodeStrict Timestamp.presentation
    let decoding ← Timestamp.parseCodeStrict Timestamp.decoding
    return (some presentation, some decoding)
  else if times = 0b01 then
    warn (.forbiddenTimestampFlags streamId)
    return (none, none)
  else
    return (none, none)

/-- Reads the clock of an elementary stream. -/
def parseClockStrict : Strict ClockReference := do
  reserved 2
  ClockReference.parseStrict "ESCR"

/-- Reads the rate of an elementary stream. -/
def parseRateStrict : Strict (BitVec 22) := do
  marker "ES_rate"
  let rate ← Strict.field 22 32
  marker "ES_rate"
  return rate

/-- Reads the additional copy information. -/
def parseCopyInfoStrict : Strict (BitVec 7) := do
  marker "additional_copy_info"
  Strict.field 7 8

/-- Reads the optional fields that the flags ask for. -/
def Fields.parseStrict (streamId : UInt8) (flags : Flags) : Strict Fields := do
  let (presentation, decoding) ← parseTimesStrict streamId flags.times
  let clock ← given flags.clock parseClockStrict
  let rate ← given flags.rate parseRateStrict
  let trickMode ← given flags.trickMode TrickMode.parseStrict
  let copyInfo ← given flags.copyInfo parseCopyInfoStrict
  let previousChecksum ← given flags.previousChecksum field16
  let extension ← given flags.extension Extension.parseStrict
  return { presentation, decoding, clock, rate, trickMode, copyInfo, previousChecksum, extension }

theorem implements_parseStart :
    Implements k (IsPast m) (IsPast m) parseStartStrict parseStart :=
  Implements.field32.bind fun found =>
    .ite (fun _ => .pure_past _ (by omega)) fun _ => .fail (.startCode found)

theorem Flags.implements_parse :
    Implements k (IsPast m) (IsPast m) Flags.parseStrict Flags.parse := by
  unfold Flags.parseStrict Flags.parse
  refine (Implements.field (by decide) (by decide)).bind fun times => ?_
  refine Implements.flag.bind fun clock => ?_
  refine Implements.flag.bind fun rate => ?_
  refine Implements.flag.bind fun trickMode => ?_
  refine Implements.flag.bind fun copyInfo => ?_
  refine Implements.flag.bind fun previousChecksum => ?_
  exact Implements.flag.bind fun extension => .pure_past _ (by omega)

theorem Header.implements_parse (hm : m % 8 = 0) :
    Implements k (IsPast m) (IsPast m) Header.parseStrict Header.parse := by
  unfold Header.parseStrict Header.parse
  refine (PackHeader.implements_parseVersion _ hm).bind fun _ => ?_
  refine (Implements.field (by decide) (by decide)).bind fun scrambling => ?_
  refine Implements.flag.bind fun priority => ?_
  refine Implements.flag.bind fun alignment => ?_
  refine Implements.flag.bind fun protectedContent => ?_
  refine Implements.flag.bind fun notCopied => ?_
  refine Flags.implements_parse.bind fun flags => ?_
  exact (Implements.byte (by omega)).bind fun dataLength => .pure_past _ (by omega)

theorem implements_parseTimes (streamId : UInt8) (times : BitVec 2) :
    Implements k (IsPast m) (IsPast m) (parseTimesStrict streamId times)
      (parseTimes streamId times) := by
  unfold parseTimesStrict parseTimes
  refine .ite (fun _ => ?_) fun _ => .ite (fun _ => ?_) fun _ => .ite (fun _ => ?_) fun _ => ?_
  · exact (Timestamp.implements_parseCode _).bind fun presentation => .pure_past _ rfl
  · refine (Timestamp.implements_parseCode _).bind fun presentation => ?_
    exact (Timestamp.implements_parseCode _).bind fun decoding => .pure_past _ rfl
  · exact (Implements.warn _).bind fun _ => .pure_past _ rfl
  · exact .pure_past _ rfl

theorem implements_parseClock :
    Implements k (IsPast m) (IsPast m) parseClockStrict parseClock :=
  (Implements.reserved (by decide)).bind fun _ =>
    .past (ClockReference.implements_parse _) (by omega)

theorem implements_parseRate :
    Implements k (IsPast m) (IsPast m) parseRateStrict parseRate := by
  refine (Implements.marker _).bind fun _ => ?_
  refine (Implements.field (by decide) (by decide)).bind fun rate => ?_
  exact (Implements.marker _).bind fun _ => .pure_past _ (by omega)

theorem implements_parseCopyInfo :
    Implements k (IsPast m) (IsPast m) parseCopyInfoStrict parseCopyInfo :=
  (Implements.marker _).bind fun _ => .past (Implements.field (by decide) (by decide)) (by omega)

/-- **Optional fields take whole bytes**, whichever there are. -/
theorem Fields.implements_parse (streamId : UInt8) (flags : Flags) (hm : m % 8 = 0) :
    Implements k (IsPast m) (IsPast m) (Fields.parseStrict streamId flags)
      (Fields.parse streamId flags) := by
  unfold Fields.parseStrict Fields.parse
  refine (implements_parseTimes _ _).bind fun times => ?_
  refine (implements_parseClock.given _).bind fun clock => ?_
  refine (implements_parseRate.given _).bind fun rate => ?_
  refine (TrickMode.implements_parse.given _).bind fun trickMode => ?_
  refine (implements_parseCopyInfo.given _).bind fun copyInfo => ?_
  refine ((Implements.field16.past (by omega)).given _).bind fun previousChecksum => ?_
  exact ((Extension.implements_parse hm).given _).bind fun extension => .pure_past _ rfl

/-! ## Packets -/

/-- Reads a packet. -/
def parseStrict : Strict Packet := do
  let streamId ← parseStartStrict
  let packetLength ← field16
  let declared := packetLength.toNat
  if declared < headerLength then fail (.tooShort declared headerLength)
  let header ← Header.parseStrict
  let dataLength := header.dataLength.toNat
  let required := header.flags.requiredLength
  if dataLength < required then fail (.tooShort dataLength required)
  if declared < headerLength + dataLength then
    fail (.tooShort declared (headerLength + dataLength))
  let start ← taken
  let fields ← Fields.parseStrict streamId header.flags
  let used ← Strict.sub (← taken) start
  if dataLength < used then fail (.tooShort dataLength used)
  let stuffing ← Strict.sub dataLength used
  skip stuffing
  let behindHeader ← Strict.sub declared headerLength
  let payloadLength ← Strict.sub behindHeader dataLength
  let payload ← Strict.bytes payloadLength
  return { streamId, packetLength, header, fields, payload }

theorem implements_parse : Implements k (IsPast 0) (IsPast 0) parseStrict parse := by
  unfold parseStrict parse
  refine implements_parseStart.bind fun streamId => ?_
  refine Implements.field16.bind fun packetLength => ?_
  refine .ite (fun _ => .fail_bind (.tooShort _ _) _ _) fun _ => ?_
  refine (Header.implements_parse rfl).bind fun header => ?_
  refine .ite (fun _ => .fail_bind (.tooShort _ _) _ _) fun _ => ?_
  refine .ite (fun _ => .fail_bind (.tooShort _ _) _ _) fun hdeclared => ?_
  -- the optional fields may take any number of bytes, but none are given back
  refine .taken_bind fun start _ => ?_
  refine (Fields.implements_parse _ _ rfl).bind fun fields => ?_
  refine .taken_bind fun now hnow => ?_
  refine .sub_bind hnow ?_
  refine .ite (fun _ => .fail_bind (.tooShort _ _) _ _) fun hused => ?_
  refine .sub_bind (Nat.not_lt.1 hused) ?_
  refine (Implements.skip _ rfl).bind fun _ => ?_
  -- the guard for both differences stands before the optional fields
  refine .sub_bind (by omega) (.sub_bind (by omega) ?_)
  exact (Implements.bytes _ rfl).bind fun payload => .pure_past _ rfl

end Packet

end ProgramStream
