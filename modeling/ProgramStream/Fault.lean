import ProgramStream.Bits.Cursor
import ProgramStream.Bytes.Output
import ProgramStream.Text.Radix
/-!
# Faults — why a unit or a table is refused

A parser fails with a `Fault`: a cause and the numbers that show it. Its
wording is `Fault.message`. Running out of input is one cause for all
parsers, `truncated`, whichever reader noticed it (`ofBytes`, `ofBits`);
any other fault of a reader is kept as it is inside the parser's own.
-/

namespace ProgramStream

/-- What is wrong with the contents of a table or a list of entries. -/
inductive Malformation where
  /-- the bytes left for stream bounds are not whole entries -/
  | boundsLength (bytes : Nat)
  /-- a stream bound whose two leading bits are not ones -/
  | boundMark (streamId : UInt8)
  /-- bytes after the last entry of a stream map, too few for another -/
  | mapTail (bytes : Nat)
  /-- an entry of a stream map longer than what is left of the map -/
  | mapEntry (streamId : UInt8) (infoLength : Nat)
  /-- an extended entry too short for its pseudo descriptor -/
  | extendedEntry (infoLength : Nat)
  /-- a buffer field whose two leading bits are not `01` -/
  | bufferMark
  /-- another table where an association table is wanted -/
  | notAssociation (tableId : UInt8)
  /-- an association section that does not hold whole programs -/
  | associationLength (length : Nat)
  /-- another table where a program map is wanted -/
  | notProgramMap (tableId : UInt8)
  /-- a program map section shorter than its fixed part -/
  | programMapLength (length : Nat)
  /-- program descriptors longer than the section -/
  | programInfo (length : Nat)
  /-- bytes after the last stream of a program map, too few for another -/
  | streamTail (bytes : Nat)
  /-- stream descriptors longer than what is left of the section -/
  | streamInfo (length : Nat) (pid : Nat)
  /-- a malformation reported from outside the parsers -/
  | reported (text : String)
  deriving DecidableEq, Repr

namespace Malformation

/-- The wording of a malformation. -/
def message : Malformation → String
  | .boundsLength bytes =>
    s!"system header carries {bytes} stream bound bytes, not a multiple of 3"
  | .boundMark id => s!"stream bound of stream {Text.hex 2 id.toNat} does not start with '11'"
  | .mapTail bytes => s!"{bytes} trailing bytes in the elementary stream map"
  | .mapEntry id n =>
    s!"stream {Text.hex 2 id.toNat} info length {n} overruns the elementary stream map"
  | .extendedEntry n => s!"extended stream info length {n} cannot hold its pseudo descriptor"
  | .bufferMark => "P-STD buffer field does not start with '01'"
  | .notAssociation id => s!"table id {Text.hex 2 id.toNat} is not a PAT"
  | .associationLength n => s!"PAT section length {n} does not hold whole program entries"
  | .notProgramMap id => s!"table id {Text.hex 2 id.toNat} is not a PMT"
  | .programMapLength n => s!"PMT section length {n} is too short"
  | .programInfo n => s!"program info length {n} overruns the section"
  | .streamTail bytes => s!"{bytes} trailing bytes in the PMT stream loop"
  | .streamInfo n pid => s!"ES info length {n} of pid {Text.hex 4 pid} overruns the section"
  | .reported text => text

end Malformation

/-- Why a unit or a table is refused. -/
inductive Fault where
  /-- the input ends inside a field -/
  | truncated
  /-- the bytes underneath failed for another reason -/
  | bytes (fault : ByteFault)
  /-- the output failed -/
  | output (fault : OutputFault)
  /-- the bits underneath failed for another reason -/
  | bits (fault : BitFault)
  /-- a unit that starts with another start code -/
  | startCode (found : UInt32)
  /-- a unit whose first bits belong to another version of the format -/
  | version (firstByte : UInt8)
  /-- a marker bit that is zero, with the field it belongs to -/
  | marker (field : String)
  /-- a timestamp with another code before it than its place asks for -/
  | timestampCode (expected found : Nat)
  /-- contents that do not fit together -/
  | malformed (what : Malformation)
  /-- a length smaller than what has to fit into it -/
  | tooShort (declared required : Nat)
  /-- a length that is not what the unit's contents take up -/
  | lengthMismatch (declared consumed : Nat)
  /-- a section whose bytes do not have the checksum it carries -/
  | checksum (carried computed : UInt32)
  deriving DecidableEq, Repr

namespace Fault

/-- The wording of a fault. -/
def message : Fault → String
  | .truncated => "truncated input, not enough bytes for the current field"
  | .bytes fault => "bytes read error: " ++ fault.message
  | .output fault => "bytes write error: " ++ fault.message
  | .bits fault => "bits error: " ++ fault.message
  | .startCode found => "start code not correct: " ++ Text.hex 8 found.toNat
  | .version firstByte =>
    "unsupported mpeg version, pack header starts with " ++ Text.hex 2 firstByte.toNat
  | .marker field => s!"marker bit of {field} is not 1"
  | .timestampCode expected found =>
    s!"timestamp prefix {Text.binary 4 found} does not match {Text.binary 4 expected}"
  | .malformed what => "malformed table: " ++ what.message
  | .tooShort declared required =>
    s!"declared length {declared} is smaller than the {required} bytes required by the header"
  | .lengthMismatch declared consumed =>
    s!"declared length {declared} does not match the {consumed} bytes consumed"
  | .checksum carried computed =>
    s!"crc32 mismatch, carried {Text.hex 8 carried.toNat} but computed {Text.hex 8 computed.toNat}"

/-- The wordings of what lies behind a fault, nearest first. -/
def causes : Fault → List String
  | .bytes fault => fault.message :: fault.causes
  | .output fault => fault.message :: fault.causes
  | .bits fault => fault.message :: fault.causes
  | _ => []

/-- More input would mend this fault. -/
def isTruncation : Fault → Bool
  | .truncated => true
  | _ => false

/-- A fault of the bytes underneath, as a parser reports it. -/
def ofBytes (fault : ByteFault) : Fault :=
  if fault.isShortage then .truncated else .bytes fault

/-- A fault of the bits underneath, as a parser reports it. -/
def ofBits (fault : BitFault) : Fault :=
  if fault.isShortage then .truncated else .bits fault

end Fault

end ProgramStream
