import ProgramStream.Codec
import ProgramStream.Crc
import ProgramStream.PackHeader
/-!
# Program stream maps — which codec each stream carries

    start code                     32
    map length                     16
    current/next                    1
    single extension                1
    reserved                        1
    version                         5
    reserved, marker                8
    info length                    16
    descriptors                     8 each
    entries length                 16
    entries: type 8, id 8, info length 16, info bytes
    checksum                       32

An entry's info bytes are descriptors, which an extended stream's id
extension comes before where the map leaves room for one. The checksum
covers the whole map, so it is looked at before anything is decoded.
-/

namespace ProgramStream

/-- The id extension of an extended stream, in the form of a descriptor. -/
structure PseudoDescriptor where
  code : UInt8
  length : UInt8
  idExtension : BitVec 7
  deriving DecidableEq, Repr

namespace PseudoDescriptor

/-- The length of a pseudo descriptor in bytes. -/
def size : Nat := 3

/-- Reads a pseudo descriptor. -/
def parse : Parser PseudoDescriptor := do
  let code ← Parser.byte
  let length ← Parser.byte
  Parser.marker "elementary_stream_id_extension"
  let idExtension ← Parser.field 7
  return { code, length, idExtension }

end PseudoDescriptor

/-- What a map says of one stream. -/
structure MapEntry where
  streamType : UInt8
  streamId : UInt8
  infoLength : UInt16
  pseudo : Option PseudoDescriptor
  descriptors : List UInt8
  deriving DecidableEq, Repr

namespace MapEntry

/-- The length of an entry in bytes, without its info. -/
def fixedLength : Nat := 4

/-- The length of an entry in bytes. -/
def size (e : MapEntry) : Nat := fixedLength + e.infoLength.toNat

/-- The codec of the entry's stream. -/
def codec (e : MapEntry) : Codec := Codec.classify e.streamType e.streamId

/-- Reads an entry that has to end within the `remaining` bytes of its map.
The entry is `extended` if it has to start with a pseudo descriptor, which
`single` rules out for the whole map. -/
def parse (single : Bool) (remaining : Nat) : Parser MapEntry := do
  if remaining < fixedLength then throw (.malformed (.mapTail remaining))
  let streamType ← Parser.byte
  let streamId ← Parser.byte
  let infoLength ← Parser.field16
  let info := infoLength.toNat
  if remaining < fixedLength + info then throw (.malformed (.mapEntry streamId info))
  let extended := streamId = StreamId.extended ∧ single = false
  if extended ∧ info < PseudoDescriptor.size then throw (.malformed (.extendedEntry info))
  let pseudo ← Parser.given extended PseudoDescriptor.parse
  let descriptors ← Parser.bytes (if extended then info - PseudoDescriptor.size else info)
  let entry := { streamType, streamId, infoLength, pseudo, descriptors : MapEntry }
  match entry.codec with
  | .unknown type => Parser.warn (.unknownCodec type streamId)
  | _ => pure ()
  return entry

/-- Reads the entries that fill the `remaining` bytes of a map. -/
def parseAll (single : Bool) (remaining : Nat) : Parser (List MapEntry) :=
  if remaining = 0 then pure []
  else do
    let entry ← parse single remaining
    let entries ← parseAll single (remaining - (fixedLength + entry.infoLength.toNat))
    return entry :: entries
termination_by remaining
decreasing_by simp only [fixedLength]; omega

end MapEntry

/-- A program stream map. -/
structure StreamMap where
  length : UInt16
  currentNext : Bool
  singleExtension : Bool
  version : BitVec 5
  infoLength : UInt16
  descriptors : List UInt8
  entriesLength : UInt16
  entries : List MapEntry
  checksum : UInt32
  deriving DecidableEq, Repr

namespace StreamMap

/-- The length of a unit's start code and length field. -/
def prologueLength : Nat := 6

/-- Looks at the start code, the length and the checksum of the map ahead,
and leaves all of it ahead. -/
def check : Parser UInt32 := do
  let head ← Parser.peek prologueLength
  let found := UInt32.ofNat (ByteOrder.big.value (head.take 4))
  if found ≠ startCode StreamId.map then throw (.startCode found)
  let whole ← Parser.peek (prologueLength + ByteOrder.big.value (head.drop 4))
  match Crc.verify whole with
  | .ok carried => return carried
  | .error fault => throw fault

/-- Reads a program stream map. -/
def parse : Parser StreamMap := do
  let checksum ← check
  Parser.reserved 32
  let length ← Parser.field16
  let currentNext ← Parser.flag
  let singleExtension ← Parser.flag
  Parser.reserved 1
  let version ← Parser.field 5
  Parser.reserved 7
  Parser.marker "program_stream_map_version"
  let infoLength ← Parser.field16
  let descriptors ← Parser.bytes infoLength.toNat
  let entriesLength ← Parser.field16
  let entries ← MapEntry.parseAll singleExtension entriesLength.toNat
  Parser.reserved 32
  return { length, currentNext, singleExtension, version, infoLength, descriptors, entriesLength,
           entries, checksum }

end StreamMap

end ProgramStream
