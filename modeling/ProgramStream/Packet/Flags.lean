/-!
# Packet flags — which optional fields a packet header has

Seven flags of the header tell which fields follow it, in a fixed order.
`Flags.fields` lists them, `OptionalField.width` is the table of their
widths, and their sum is the least length the header has to declare for
them.
-/

namespace ProgramStream

namespace Packet

/-- A field of a packet header that is there only if a flag says so. -/
inductive OptionalField where
  | presentationTime
  | bothTimes
  | clock
  | rate
  | trickMode
  | copyInfo
  | previousChecksum
  /-- grows past its width by what its own flags select -/
  | extension
  deriving DecidableEq, Repr

/-- The width of an optional field in bytes, its least one for an
extension. -/
def OptionalField.width : OptionalField → Nat
  | .presentationTime => 5
  | .bothTimes => 10
  | .clock => 6
  | .rate => 3
  | .trickMode => 1
  | .copyInfo => 1
  | .previousChecksum => 2
  | .extension => 1

/-- The flags of a packet header. -/
structure Flags where
  /-- `10` for a presentation time, `11` for a decoding time as well -/
  times : BitVec 2
  clock : Bool
  rate : Bool
  trickMode : Bool
  copyInfo : Bool
  previousChecksum : Bool
  extension : Bool
  deriving DecidableEq, Repr

namespace Flags

/-- The times that the flags ask for. -/
def timeFields (times : BitVec 2) : List OptionalField :=
  if times = 0b10 then [.presentationTime]
  else if times = 0b11 then [.bothTimes]
  else []

/-- The fields that the flags ask for, in the order they stand in. -/
def fields (f : Flags) : List OptionalField :=
  timeFields f.times ++
    ([(f.clock, OptionalField.clock), (f.rate, .rate), (f.trickMode, .trickMode),
      (f.copyInfo, .copyInfo), (f.previousChecksum, .previousChecksum),
      (f.extension, .extension)].filter (·.1)).map (·.2)

/-- The least number of bytes the flagged fields take up. -/
def requiredLength (f : Flags) : Nat :=
  f.fields.foldr (·.width + ·) 0

end Flags

end Packet

end ProgramStream
