import ProgramStream.Diagnostic.Units
import ProgramStream.Dump.FileName
import ProgramStream.Section.ProgramMap
import ProgramStream.Session
import ProgramStream.Settings.Basic
/-!
# A dump — a program stream taken apart into files

A dump reads a stream piece by piece and writes a file for each unit that
is to be kept: the payload of a packet, the diagnostic text of a header or
a map. A file that cannot be written is counted and passed over; the dump
itself fails only before the first unit, or if its input cannot be read.

A piece has to be held in memory, and is asked for before anything is read.
Which sizes can be had is up to the machine, and so `Memory` is an argument
of a dump.
-/

namespace ProgramStream

namespace Dump

/-- Why there is no dump. -/
inductive Fault where
  | noInput
  | notOpened (path : String) (fault : StorageFault)
  | noOutput (fault : StorageFault)
  /-- pieces of that size have no addresses -/
  | unaddressable (size : Nat)
  /-- pieces of that size find no memory -/
  | noMemory (size : Nat)
  | notRead (fault : StorageFault)
  deriving DecidableEq, Repr

/-- The wording of a fault. -/
def Fault.message : Fault → String
  | .noInput => "no input file configured"
  | .notOpened path fault => s!"open {path}: {fault.message}"
  | .noOutput fault => fault.message
  | .unaddressable size => s!"a piece of {size} bytes cannot be addressed"
  | .noMemory size => s!"memory allocation of {size} bytes failed"
  | .notRead fault => fault.message

/-- The most bytes that can have addresses of their own. -/
def addressLimit : Nat := 0x7FFFFFFFFFFFFFFF

/-- The memory of a machine, by the sizes of the pieces that it can hold. All
that is known of them is that the bytes of a piece have addresses. -/
structure Memory where
  canHold : Nat → Bool
  le_addressLimit : ∀ size, canHold size = true → size ≤ addressLimit

/-- Memory with addresses of 47 bits, of which no piece gets all: that of a dump
that is told of no other. -/
def Memory.common : Memory where
  canHold size := size < 0x800000000000
  le_addressLimit _ h := Nat.le_trans (Nat.le_of_lt (of_decide_eq_true h)) (by decide)

/-- What was written. -/
structure Tally where
  files : Nat := 0
  bytes : Nat := 0
  failures : Nat := 0
  deriving DecidableEq, Repr

/-- What a dump met, wrote and reported. -/
structure Summary where
  stats : Stats
  tally : Tally
  warnings : Array Warning

/-- The lines of a summary. -/
def Summary.lines (s : Summary) : List String :=
  [ s!"pack headers:        {s.stats.packHeaders}",
    s!"system headers:      {s.stats.systemHeaders}",
    s!"program stream maps: {s.stats.streamMaps}",
    s!"video packets:       {s.stats.videoPackets}",
    s!"audio packets:       {s.stats.audioPackets}",
    s!"stream ends:         {s.stats.streamEnds}",
    s!"unknown units:       {s.stats.otherUnits}",
    s!"corrupt units:       {s.stats.corruptUnits}",
    s!"skipped bytes:       {s.stats.skippedBytes}",
    s!"files written:       {s.tally.files} ({s.tally.bytes} bytes, {s.tally.failures} failed)" ]

/-- The content of a unit's file, if the unit is of a kind to be kept. -/
def content? (output : OutputSettings) (u : StreamUnit) : Option (List UInt8) :=
  match u with
  | .packet p _ => if output.savePayload then some p.payload else none
  | u =>
    if output.saveDiagnostics then (Diagnostic.text? u).map fun text => text.toUTF8.toList
    else none

/-- The file of a record: its name and its content. -/
def file? (output : OutputSettings) (r : Record) : Option (String × List UInt8) := do
  let name ← fileName? r
  let content ← content? output r.content
  return (name, content)

/-- The tables of a single program, as files. -/
def tableFiles : List (String × List UInt8) :=
  [(associationName, Section.soleAssociation.2), (programMapName, Section.soleProgramMap.2)]

/-- The files a dump writes, in their order. -/
def files (output : OutputSettings) (records : List Record) : List (String × List UInt8) :=
  (if output.saveTables then tableFiles else []) ++ records.filterMap (file? output)

/-- Feeds what was read, piece by piece. At the limit on units the rest is
left alone; at the end of the input, what is no whole unit is given up. -/
def consume (s : Session) (log : Log) (pieces : List (List UInt8)) : Session × Log :=
  let r := s.feedAll (fun _ => (none : Option Empty)) pieces log
  if r.session.isFinished then (r.session, r.log)
  else
    let (s, out, _) := r.session.flush
    (s, r.log.append out)

/-- Decodes a stream that is read in pieces. -/
def decode (demux : DemuxSettings) (reads : List (List UInt8)) : Session × Log :=
  consume (({} : Session).setLimit demux.maxUnits) {} reads

section Writing

variable {m : Type → Type} [Monad m] [Storage m]

/-- Writes one file and counts it. -/
def write (directory : String) (tally : Tally) (file : String × List UInt8) : m Tally := do
  match ← Storage.writeFile (Storage.join directory file.1) file.2 with
  | .ok () =>
    return { tally with files := tally.files + 1, bytes := tally.bytes + file.2.length }
  | .error _ => return { tally with failures := tally.failures + 1 }

/-- Why pieces of a size cannot be held, if they cannot. What has no addresses is
not asked for. -/
def chunkFault? (memory : Memory) (size : Nat) : Option Fault :=
  if addressLimit < size then some (.unaddressable size)
  else if memory.canHold size then none
  else some (.noMemory size)

/-- Ends a dump of which nothing can be read. The tables do not wait for what
is read, and are written all the same. -/
def giveUp (output : OutputSettings) (fault : Fault) : m (Except Fault Summary) := do
  let _ ← (files output []).foldlM (write output.path) {}
  return .error fault

/-- Dumps the stream that settings speak of. What is read of a file, piece by
piece, is up to the size of the pieces and to who reads. -/
def runReading (memory : Memory) (read : Nat → List UInt8 → List (List UInt8))
    (settings : Settings) : m (Except Fault Summary) := do
  let some path := settings.input | return .error .noInput
  let output := settings.outputOrDefault
  let demux := settings.demuxOrDefault
  match ← Storage.openFile path with
  | .error fault => return .error (.notOpened path fault)
  | .ok source =>
    match ← Storage.ensureDirectory output.path with
    | .error fault => return .error (.noOutput fault)
    | .ok () =>
      match chunkFault? memory demux.chunkSize, source with
      | some fault, _ => giveUp output fault
      | none, .unreadable fault => giveUp output (.notRead fault)
      | none, .content bytes =>
        let (session, log) := decode demux (read demux.chunkSize bytes)
        let tally ← (files output log.records.toList).foldlM (write output.path) {}
        return .ok { stats := session.stats, tally, warnings := log.warnings }

/-- Dumps the stream that settings speak of, in pieces that are as large as
they can be. -/
def run (settings : Settings) (memory : Memory := .common) : m (Except Fault Summary) :=
  runReading memory inPieces settings

end Writing

end Dump

end ProgramStream
