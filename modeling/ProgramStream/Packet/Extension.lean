import ProgramStream.SystemHeader
/-!
# Packet extensions — the last optional field, with flags of its own

    flags: private data, pack header, sequence counter, buffer      4
    reserved                                                        3
    flag: extension field                                           1
    private data                                                  128
    pack header: length 8, bytes
    sequence counter: marker, 7, marker, 1, 6                      16
    buffer: '01', scale 1, size 13                                 16
    extension field: marker, length 7, bytes
-/

namespace ProgramStream

namespace Packet

/-- A count of the packets of a program. -/
structure SequenceCounter where
  counter : BitVec 7
  /-- set if the stream was made from one of the first version -/
  firstVersion : Bool
  stuffing : BitVec 6
  deriving DecidableEq, Repr

/-- Reads a sequence counter. -/
def SequenceCounter.parse : Parser SequenceCounter := do
  Parser.marker "program_packet_sequence_counter"
  let counter ← Parser.field 7
  Parser.marker "program_packet_sequence_counter"
  let firstVersion ← Parser.flag
  let stuffing ← Parser.field 6
  return { counter, firstVersion, stuffing }

/-- The size of a decoder's buffer. -/
structure DecoderBuffer where
  scale : Bool
  bound : BitVec 13
  deriving DecidableEq, Repr

/-- The size of the buffer in bytes. -/
def DecoderBuffer.size (b : DecoderBuffer) : Nat := bufferBytes b.scale b.bound.toNat

/-- Reads the size of a decoder's buffer. -/
def DecoderBuffer.parse : Parser DecoderBuffer := do
  let mark ← Parser.field 2
  if mark = 0b01 then
    let scale ← Parser.flag
    let bound ← Parser.field 13
    return { scale, bound }
  else throw (.malformed .bufferMark)

/-- The extension of a packet header. -/
structure Extension where
  privateData : Option (List UInt8)
  packHeader : Option (List UInt8)
  sequenceCounter : Option SequenceCounter
  buffer : Option DecoderBuffer
  field : Option (List UInt8)
  deriving DecidableEq, Repr

namespace Extension

/-- The length of private data in bytes. -/
def privateLength : Nat := 16

/-- Reads the bytes of a pack header after their length. -/
def parsePackHeader : Parser (List UInt8) := do
  let length ← Parser.byte
  Parser.bytes length.toNat

/-- Reads the bytes of an extension field after their length. -/
def parseField : Parser (List UInt8) := do
  Parser.marker "PES_extension_field_length"
  let length ← Parser.field 7
  Parser.bytes length.toNat

/-- Reads an extension. -/
def parse : Parser Extension := do
  let hasPrivateData ← Parser.flag
  let hasPackHeader ← Parser.flag
  let hasCounter ← Parser.flag
  let hasBuffer ← Parser.flag
  Parser.reserved 3
  let hasField ← Parser.flag
  let privateData ← Parser.given hasPrivateData (Parser.bytes privateLength)
  let packHeader ← Parser.given hasPackHeader parsePackHeader
  let sequenceCounter ← Parser.given hasCounter SequenceCounter.parse
  let buffer ← Parser.given hasBuffer DecoderBuffer.parse
  let field ← Parser.given hasField parseField
  return { privateData, packHeader, sequenceCounter, buffer, field }

end Extension

end Packet

end ProgramStream
