import ProgramStream.Crc
import ProgramStream.Parser
/-!
# Sections — tables with a length and a checksum

    table id                        8
    section syntax, '0', reserved   4
    section length                 12
    body                            8 each byte
    checksum                       32

The section length counts the bytes after it, checksum included. Reading a
section first looks at all of it and at its checksum, so input that ends
too early leaves everything ahead. Writing appends to a buffer and hands
out all that the buffer holds, under one checksum.
-/

namespace ProgramStream

namespace Section

/-- The length of what comes before the bytes the section length counts. -/
def prologueLength : Nat := 3

/-- The length of the checksum in bytes. -/
def checksumLength : Nat := 4

/-- Looks at a whole section and returns its length and its checksum. -/
def check : Parser (Nat × UInt32) := do
  let head ← Parser.peek prologueLength
  let length := ByteOrder.big.value (head.drop 1) % 0x1000
  let whole ← Parser.peek (prologueLength + length)
  match Crc.verify whole with
  | .ok carried => return (length, carried)
  | .error fault => throw fault

/-- The version of a table, between reserved bits and a flag. -/
def parseVersion : Parser UInt8 := do
  Parser.reserved 2
  let version ← Parser.field 5
  Parser.reserved 1
  return UInt8.ofNat version.toNat

/-- The pid of a table, after reserved bits. -/
def parsePid : Parser UInt16 := do
  Parser.reserved 3
  let pid ← Parser.field 13
  return UInt16.ofNat pid.toNat

/-- A length of a table, after reserved bits. -/
def parseLength : Parser Nat := do
  Parser.reserved 4
  let length ← Parser.field 12
  return length.toNat

/-- A section length under its flags: `1`, `0` and two reserved ones. A
length wider than twelve bits spills into them. -/
def lengthWord (length : UInt16) : List UInt8 := ByteOrder.big.bytes 2 (0xB000 ||| length).toNat

/-- The low thirteen bits of a pid under three ones. -/
def pidWord (pid : UInt16) : List UInt8 :=
  ByteOrder.big.bytes 2 (0xE000 ||| (pid &&& 0x1FFF)).toNat

/-- The low twelve bits of a length under four ones. -/
def infoWord (length : Nat) : List UInt8 :=
  ByteOrder.big.bytes 2 (0xF000 ||| (UInt16.ofNat length &&& 0x0FFF)).toNat

/-- The low five bits of a version, with a set bit for a table in force. -/
def versionByte (version : UInt8) : UInt8 :=
  (0xC1 : UInt8) ||| ((version &&& 0x1F) <<< 1)

/-- A buffer sections are written to. -/
structure Writer where
  buffer : List UInt8 := []
  deriving DecidableEq, Repr

/-- Appends a section and hands out the buffer under its checksum, leaving
it empty. -/
def Writer.put (w : Writer) (content : List UInt8) : List UInt8 × Writer :=
  let all := w.buffer ++ content
  (all ++ ByteOrder.big.bytes 4 (Crc.compute all).toNat, {})

end Section

/-- Runs a parser of whole bytes at the front of a buffer, and returns what
the parser left there. -/
def ByteBuffer.parse {α : Type} (p : Parser α) (b : ByteBuffer) : Except Fault α × ByteBuffer :=
  let outcome := p.run (BitCursor.ofBytes b.content)
  (outcome.result, ⟨outcome.cursor.bytes⟩)

end ProgramStream
