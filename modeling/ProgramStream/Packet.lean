import ProgramStream.Packet.Extension
import ProgramStream.Packet.Flags
import ProgramStream.Packet.TrickMode
/-!
# Packets — a piece of an elementary stream under a header

    start code                     32
    packet length                  16
    '10'                            2
    scrambling                      2
    priority, alignment             2
    protected, not copied           2
    flags                           8
    header data length              8
    optional fields                 8 each byte
    stuffing                        8 each byte
    payload                         8 each byte

The packet length counts the bytes after it and the header data length
those of the optional fields and the stuffing. Both are compared with what
the flags ask for before a field is read, and the header data length again
with what the fields took up.
-/

namespace ProgramStream

/-- The header of a packet up to its optional fields. -/
structure Packet.Header where
  scrambling : BitVec 2
  priority : Bool
  alignment : Bool
  /-- the contents are protected by law -/
  protectedContent : Bool
  /-- the contents are no copy of others -/
  notCopied : Bool
  flags : Packet.Flags
  dataLength : UInt8
  deriving DecidableEq, Repr

/-- The optional fields of a packet. -/
structure Packet.Fields where
  presentation : Option Timestamp
  decoding : Option Timestamp
  clock : Option ClockReference
  rate : Option (BitVec 22)
  trickMode : Option Packet.TrickMode
  copyInfo : Option (BitVec 7)
  previousChecksum : Option UInt16
  extension : Option Packet.Extension
  deriving DecidableEq, Repr

/-- A packet of an elementary stream. -/
structure Packet where
  streamId : UInt8
  packetLength : UInt16
  header : Packet.Header
  fields : Packet.Fields
  payload : List UInt8
  deriving DecidableEq, Repr

namespace Packet

/-- The length of a packet's start code and length field. -/
def prologueLength : Nat := 6

/-- The length of a header between the packet length and the optional
fields. -/
def headerLength : Nat := 3

/-- The length of a packet in bytes. -/
def size (p : Packet) : Nat := prologueLength + p.packetLength.toNat

/-- Reads a start code and returns the stream id in it. -/
def parseStart : Parser UInt8 := do
  let found ← Parser.field32
  if found >>> 8 = 1 then return found.toUInt8
  else throw (.startCode found)

/-- Reads the flags. -/
def Flags.parse : Parser Flags := do
  let times ← Parser.field 2
  let clock ← Parser.flag
  let rate ← Parser.flag
  let trickMode ← Parser.flag
  let copyInfo ← Parser.flag
  let previousChecksum ← Parser.flag
  let extension ← Parser.flag
  return { times, clock, rate, trickMode, copyInfo, previousChecksum, extension }

/-- Reads a header up to its optional fields. -/
def Header.parse : Parser Header := do
  PackHeader.parseVersion 0b10
  let scrambling ← Parser.field 2
  let priority ← Parser.flag
  let alignment ← Parser.flag
  let protectedContent ← Parser.flag
  let notCopied ← Parser.flag
  let flags ← Flags.parse
  let dataLength ← Parser.byte
  return { scrambling, priority, alignment, protectedContent, notCopied, flags, dataLength }

/-- Reads the times the flags ask for: a presentation time alone, or one
that a decoding time follows. Flags that ask for a decoding time alone are
forbidden, and nothing is read for them. -/
def parseTimes (streamId : UInt8) (times : BitVec 2) :
    Parser (Option Timestamp × Option Timestamp) := do
  if times = 0b10 then
    return (some (← Timestamp.parseCode Timestamp.presentationAlone), none)
  else if times = 0b11 then
    let presentation ← Timestamp.parseCode Timestamp.presentation
    let decoding ← Timestamp.parseCode Timestamp.decoding
    return (some presentation, some decoding)
  else if times = 0b01 then
    Parser.warn (.forbiddenTimestampFlags streamId)
    return (none, none)
  else
    return (none, none)

/-- Reads the clock of an elementary stream. -/
def parseClock : Parser ClockReference := do
  Parser.reserved 2
  ClockReference.parse "ESCR"

/-- Reads the rate of an elementary stream. -/
def parseRate : Parser (BitVec 22) := do
  Parser.marker "ES_rate"
  let rate ← Parser.field 22
  Parser.marker "ES_rate"
  return rate

/-- Reads the additional copy information. -/
def parseCopyInfo : Parser (BitVec 7) := do
  Parser.marker "additional_copy_info"
  Parser.field 7

/-- Reads the optional fields that the flags ask for. -/
def Fields.parse (streamId : UInt8) (flags : Flags) : Parser Fields := do
  let (presentation, decoding) ← parseTimes streamId flags.times
  let clock ← Parser.given flags.clock parseClock
  let rate ← Parser.given flags.rate parseRate
  let trickMode ← Parser.given flags.trickMode TrickMode.parse
  let copyInfo ← Parser.given flags.copyInfo parseCopyInfo
  let previousChecksum ← Parser.given flags.previousChecksum Parser.field16
  let extension ← Parser.given flags.extension Extension.parse
  return { presentation, decoding, clock, rate, trickMode, copyInfo, previousChecksum, extension }

/-- Reads a packet. -/
def parse : Parser Packet := do
  let streamId ← parseStart
  let packetLength ← Parser.field16
  let declared := packetLength.toNat
  if declared < headerLength then throw (.tooShort declared headerLength)
  let header ← Header.parse
  let dataLength := header.dataLength.toNat
  let required := header.flags.requiredLength
  if dataLength < required then throw (.tooShort dataLength required)
  if declared < headerLength + dataLength then
    throw (.tooShort declared (headerLength + dataLength))
  let start ← Parser.taken
  let fields ← Fields.parse streamId header.flags
  let used := (← Parser.taken) - start
  if dataLength < used then throw (.tooShort dataLength used)
  Parser.skip (dataLength - used)
  let payload ← Parser.bytes (declared - headerLength - dataLength)
  return { streamId, packetLength, header, fields, payload }

end Packet

end ProgramStream
