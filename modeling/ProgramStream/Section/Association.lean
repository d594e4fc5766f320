import ProgramStream.Section.Basic
/-!
# Association sections — where the map of each program is carried

    section prologue               24, table id 0
    transport stream id            16
    reserved, version, in force     8
    section numbers                16
    programs: number 16, reserved 3, pid 13
    checksum                       32
-/

namespace ProgramStream

namespace Section

/-- A program and the pid its map is carried on. -/
structure ProgramPid where
  programNumber : UInt16
  pid : UInt16
  deriving DecidableEq, Repr

/-- An association section. -/
structure Association where
  transportStreamId : UInt16
  version : UInt8
  programs : List ProgramPid
  checksum : UInt32
  deriving DecidableEq, Repr

namespace Association

/-- The table id of an association section. -/
def tableId : UInt8 := 0x00

/-- The bytes between the section length and the programs. -/
def fixedLength : Nat := 5

/-- The bytes of one program. -/
def programLength : Nat := 4

/-- The section length, in sixteen bits. -/
def sectionLength (t : Association) : UInt16 :=
  UInt16.ofNat (fixedLength + t.programs.length * programLength + checksumLength)

/-- Reads programs, as many as are asked for. -/
def parsePrograms : Nat → Parser (List ProgramPid)
  | 0 => pure []
  | n + 1 => do
    let programNumber ← Parser.field16
    let pid ← parsePid
    let programs ← parsePrograms n
    return { programNumber, pid } :: programs

/-- Reads an association section. -/
def parse : Parser Association := do
  let (length, checksum) ← check
  let id ← Parser.byte
  if id ≠ tableId then throw (.malformed (.notAssociation id))
  Parser.reserved 16
  let programsLength := length - (fixedLength + checksumLength)
  if length < fixedLength + checksumLength ∨ programsLength % programLength ≠ 0 then
    throw (.malformed (.associationLength length))
  let transportStreamId ← Parser.field16
  let version ← parseVersion
  Parser.reserved 16
  let programs ← parsePrograms (programsLength / programLength)
  Parser.reserved 32
  return { transportStreamId, version, programs, checksum }

/-- The section without its checksum. -/
def content (t : Association) : List UInt8 :=
  tableId :: lengthWord t.sectionLength ++ ByteOrder.big.bytes 2 t.transportStreamId.toNat ++
    versionByte t.version :: ByteOrder.big.bytes 2 0 ++
    t.programs.flatMap fun p => ByteOrder.big.bytes 2 p.programNumber.toNat ++ pidWord p.pid

/-- Writes an association section. -/
def write (w : Writer) (t : Association) : List UInt8 × Writer := w.put t.content

/-- The section with the checksum its bytes carry, and those bytes. -/
def sealed (t : Association) : Association × List UInt8 :=
  let (bytes, _) := write {} t
  ({ t with checksum := Crc.compute t.content }, bytes)

end Association

end Section

end ProgramStream
