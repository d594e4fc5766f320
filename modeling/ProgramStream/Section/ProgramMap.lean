import ProgramStream.Section.Association
/-!
# Program map sections — what streams a program has

    section prologue               24, table id 2
    program number                 16
    reserved, version, in force     8
    section numbers                16
    reserved, clock pid            16
    reserved, info length          16
    program descriptors             8 each byte
    streams: type 8, reserved 3, pid 13, reserved 4, info length 12, info bytes
    checksum                       32
-/

namespace ProgramStream

namespace Section

/-- A stream of a program. -/
structure StreamPid where
  streamType : UInt8
  pid : UInt16
  info : List UInt8
  deriving DecidableEq, Repr

/-- The bytes of a stream without its info. -/
def StreamPid.fixedLength : Nat := 5

/-- A program map section. -/
structure ProgramMap where
  programNumber : UInt16
  version : UInt8
  clockPid : UInt16
  programInfo : List UInt8
  streams : List StreamPid
  checksum : UInt32
  deriving DecidableEq, Repr

namespace ProgramMap

/-- The table id of a program map section. -/
def tableId : UInt8 := 0x02

/-- The bytes between the section length and the program descriptors. -/
def fixedLength : Nat := 9

/-- The section length, in sixteen bits. -/
def sectionLength (t : ProgramMap) : UInt16 :=
  UInt16.ofNat (fixedLength + t.programInfo.length +
    t.streams.foldr (fun s n => StreamPid.fixedLength + s.info.length + n) 0 + checksumLength)

/-- Reads the streams that fill the `remaining` bytes of a section. -/
def parseStreams (remaining : Nat) : Parser (List StreamPid) :=
  if remaining = 0 then pure []
  else if remaining < StreamPid.fixedLength then throw (.malformed (.streamTail remaining))
  else do
    let streamType ← Parser.byte
    let pid ← parsePid
    let infoLength ← parseLength
    if remaining < StreamPid.fixedLength + infoLength then
      throw (.malformed (.streamInfo infoLength pid.toNat))
    let info ← Parser.bytes infoLength
    let streams ← parseStreams (remaining - (StreamPid.fixedLength + infoLength))
    return { streamType, pid, info } :: streams
termination_by remaining
decreasing_by simp only [StreamPid.fixedLength]; omega

/-- Reads a program map section. -/
def parse : Parser ProgramMap := do
  let (length, checksum) ← check
  let id ← Parser.byte
  if id ≠ tableId then throw (.malformed (.notProgramMap id))
  Parser.reserved 16
  if length < fixedLength + checksumLength then throw (.malformed (.programMapLength length))
  let programNumber ← Parser.field16
  let version ← parseVersion
  Parser.reserved 16
  let clockPid ← parsePid
  let infoLength ← parseLength
  let remaining := length - (fixedLength + checksumLength)
  if remaining < infoLength then throw (.malformed (.programInfo infoLength))
  let programInfo ← Parser.bytes infoLength
  let streams ← parseStreams (remaining - infoLength)
  Parser.reserved 32
  return { programNumber, version, clockPid, programInfo, streams, checksum }

/-- The section without its checksum. -/
def content (t : ProgramMap) : List UInt8 :=
  tableId :: lengthWord t.sectionLength ++ ByteOrder.big.bytes 2 t.programNumber.toNat ++
    versionByte t.version :: ByteOrder.big.bytes 2 0 ++ pidWord t.clockPid ++
    infoWord t.programInfo.length ++ t.programInfo ++
    t.streams.flatMap fun s => s.streamType :: pidWord s.pid ++ infoWord s.info.length ++ s.info

/-- Writes a program map section. -/
def write (w : Writer) (t : ProgramMap) : List UInt8 × Writer := w.put t.content

/-- The section with the checksum its bytes carry, and those bytes. -/
def sealed (t : ProgramMap) : ProgramMap × List UInt8 :=
  let (bytes, _) := write {} t
  ({ t with checksum := Crc.compute t.content }, bytes)

end ProgramMap

/-! ## The tables of a single program -/

/-- The pid of the only program's map. -/
def mapPid : UInt16 := 0x1001

/-- The pid of the only program's video, which carries its clock. -/
def videoPid : UInt16 := 0x100

/-- The pid of the only program's audio. -/
def audioPid : UInt16 := 0x101

/-- The association of a single program with its map. -/
def soleAssociation : Association × List UInt8 :=
  Association.sealed
    { transportStreamId := 1, version := 0, programs := [⟨1, mapPid⟩], checksum := 0 }

/-- The map of a single program with one audio and one video stream. -/
def soleProgramMap : ProgramMap × List UInt8 :=
  ProgramMap.sealed
    { programNumber := 1, version := 0, clockPid := videoPid, programInfo := [],
      streams := [⟨0x0f, audioPid, []⟩, ⟨0x1b, videoPid, []⟩], checksum := 0 }

end Section

end ProgramStream
