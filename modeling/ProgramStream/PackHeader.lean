import ProgramStream.Clock
import ProgramStream.StreamId
/-!
# Pack headers — a clock reference and a rate

    start code                     32
    '01'                            2
    clock reference                44, with its markers
    program mux rate               22, and two markers
    reserved                        5
    stuffing length                 3
    stuffing                        8 each

The two bits after the start code tell this version of the format from the
first one, whose pack headers have `0010` there.
-/

namespace ProgramStream

/-- The three bytes every start code begins with, before a stream id. -/
def startCode (streamId : UInt8) : UInt32 := 0x00000100 ||| streamId.toUInt32

/-- A pack header. -/
structure PackHeader where
  clock : ClockReference
  muxRate : BitVec 22
  stuffingLength : BitVec 3
  stuffing : List UInt8
  deriving DecidableEq, Repr

namespace PackHeader

/-- The length of a pack header without stuffing. -/
def fixedLength : Nat := 14

/-- The length of a pack header in bytes. -/
def size (h : PackHeader) : Nat := fixedLength + h.stuffingLength.toNat

/-- Reads a start code that has to name a given kind of unit. -/
def parseStart (streamId : UInt8) : Parser Unit := do
  let found ← Parser.field32
  if found = startCode streamId then return
  else throw (.startCode found)

/-- Reads the two bits that have to stand at a byte boundary for this
version of the format. The fault shows the whole byte. -/
def parseVersion (mark : BitVec 2) : Parser Unit := do
  let ahead ← Parser.peek 1
  let found ← Parser.field 2
  if found = mark then return
  else throw (.version (ahead.headD 0))

/-- Reads a pack header. -/
def parse : Parser PackHeader := do
  parseStart StreamId.pack
  parseVersion 0b01
  let clock ← ClockReference.parse "system_clock_reference"
  let muxRate ← Parser.field 22
  Parser.marker "program_mux_rate"
  Parser.marker "program_mux_rate"
  Parser.reserved 5
  let stuffingLength ← Parser.field 3
  let stuffing ← Parser.bytes stuffingLength.toNat
  return { clock, muxRate, stuffingLength, stuffing }

end PackHeader

end ProgramStream
